import Mathlib.Data.Fintype.Basic
import TagExchange.Model.CallerMoves
import TagExchange.Model.DeviceMoves
import TagExchange.Model.ReceiveMoves
import TagExchange.Protocol.Simulation

/-! The service pointers that a call holds at each program point, and where they come from.
A pointer counts as held until its last use.
-/

namespace TagExchange

open Concurrency Protocol

variable {τ : Type}

-----------------------------------------------------------------------------------------
-- Held pointers
-----------------------------------------------------------------------------------------

def CreateDevicePc.pointers : CreateDevicePc → List Ref
  | lock ts | add ts | node ts | content ts | fill ts => ts.toList
  | count ts _ | print ts _ _ => [ts]
  | load | noContent | write _ | unlock _ | delete | oops => []

def UpdatePc.pointers : UpdatePc → List Ref
  | waiting s | index s _ => [s]
  | check | load | lock _ _ | read _ _ | free _ _ | assign _ _ | unlock _ | oops => []

def Frame.pointers : Frame → List Ref
  | user _ => []
  | get f =>
      match f.pc with
      | .publish | .unlockCreated | .decRemaining | .print | .lazyDeleted | .permission
      | .unlockDenied | .denied => [f.ts]
      | .device pc => f.ts :: pc.pointers
      | .entry | .find _ | .lock | .available | .kzalloc | .fields | .opened | .loadOpened
      | .unlock _ | .ret _ | .oops => []
  | send f =>
      match f.pc with
      | .lock | .lazyDeleted | .permission | .memcpy | .terminator | .size | .ready | .waiters
      | .wakeUp | .callRcu | .notReady | .memset => [f.ts]
      | .entry | .getPage | .copyFromUser | .load | .unlock _ | .freePage _ | .ret _ _
      | .oops _ => []
  | receive f =>
      match f.pc with
      | .entry | .load | .ret _ => []
      | .entered pc | .left _ pc => f.ts :: pc.pointers
      | .lazyDeleted | .permission | .incCount | .incLevel | .firstReady | .firstAwake | .prepare
      | .testReady | .testAwake | .sleep | .finish | .rcuLock | .signal | .ready | .size | .copy
      | .rcuUnlock _ | .decCount _ | .decLevel _ | .print => [f.ts]
  | ctl f =>
      match f.pc with
      | .entry | .load | .unlock (.ret _) | .ret _ => []
      | .index | .lock | .lazyDeleted | .permission | .waiters | .delete | .unlockIndex _
      | .unlock .busy | .unlock .destroy | .busy | .destroyIndex | .destroy _ | .unlink | .find _
      | .incRemaining | .kfree | .awakened | .request | .wakeUp | .callRcu | .reset => [f.ts]

/-- Every access to a service goes through a held pointer, by cases on the program point. -/
theorem touches_mem_pointers {c : CallId τ} {frame : Frame} {s : Ref}
    (touches : (frame.op c).touches = some s)
    : s ∈ frame.pointers := by
  cases frame with
  | user last => cases touches
  | get f =>
      obtain ⟨key, command, permission, euid, tag, ts, pc⟩ := f
      cases pc
      case find pc => cases pc <;> cases touches
      case device pc =>
        rcases pc with _ | _ | _ | _ | _ | _ | (_ | s') | _ | _ | _ | _ | _ | _ <;> cases touches
        all_goals simp [Frame.pointers, CreateDevicePc.pointers]
      all_goals cases touches
      all_goals exact List.mem_singleton_self _
  | send f =>
      obtain ⟨tag, level, buffer, size, euid, realSize, stored, ts, pc⟩ := f
      cases pc <;> cases touches
      all_goals exact List.mem_singleton_self _
  | receive f =>
      obtain ⟨tag, level, buffer, size, euid, ts, realSize, interrupted, copied, pc⟩ := f
      cases pc
      case entered pc =>
        cases pc <;> cases touches
        all_goals simp [Frame.pointers, UpdatePc.pointers]
      case left x pc =>
        cases pc <;> cases touches
        all_goals simp [Frame.pointers, UpdatePc.pointers]
      all_goals cases touches
      all_goals exact List.mem_singleton_self _
  | ctl f =>
      obtain ⟨tag, command, euid, ts, index, awakened, pc⟩ := f
      cases pc
      case find pc => cases pc <;> cases touches
      case destroy pc => cases pc <;> cases touches
      all_goals cases touches
      all_goals exact List.mem_singleton_self _

/-- The service of a view is one the call points to. -/
theorem view_service_mem_pointers {frame : Frame} {s : Ref}
    (points : frame.view.service = some s)
    : s ∈ frame.pointers := by
  cases frame with
  | user last => cases points
  | receive f => cases points
  | get f =>
      obtain ⟨key, command, permission, euid, tag, ts, pc⟩ := f
      cases pc <;> cases points
      exact List.mem_singleton_self _
  | send f =>
      obtain ⟨tag, level, buffer, size, euid, realSize, stored, ts, pc⟩ := f
      cases pc <;> cases points
      all_goals exact List.mem_singleton_self _
  | ctl f =>
      obtain ⟨tag, command, euid, ts, index, awakened, pc⟩ := f
      simp only [Frame.view, CtlFrame.view] at points
      rcases pc with _ | _ | _ | _ | _ | _ | _ | _ | (_ | _ | _) | (_ | _ | _) | _ | _ | _ | _ | _
        | _ | _ | _ | _ | _ | _ | _ | _
      all_goals
        simp only at points
        try split at points
        all_goals cases points
      all_goals exact List.mem_singleton_self _

-----------------------------------------------------------------------------------------
-- Where pointers come from
-----------------------------------------------------------------------------------------

/-- A call gets a pointer from a slot or from the allocator. -/
def Kernel.Supplies {α : Type} (k : Kernel τ) (op : Op τ α) (s : Ref) : Prop :=
  (∃ i, k.tsm.allTagServices i = some s) ∨ (s = k.services ∧ op.allocates ≠ none)

/-- Nothing is held now that was not held before. -/
structure Within (before now : List Ref) : Prop where
  held : ∀ s ∈ now, s ∈ before

theorem Within.refl (held : List Ref) : Within held held := ⟨fun _ => id⟩

theorem Within.none (held : List Ref) : Within held [] := ⟨fun _ => nofun⟩

variable [DecidableEq τ] {k k' : Kernel τ} {external : Nat} {frame : Frame}

/-- The pointers a routine goes on with. -/
def Then.pointers {π ρ : Type} (held : π → List Ref) : Then π ρ → List Ref
  | .go pc => held pc
  | .back _ => []

omit [DecidableEq τ] in
/-- The routines of the device driver hold no pointer but those they held before and what they
load from the slot.
-/
theorem CreateMove.pointers {i : Int} {pc : CreateDevicePc} {next : Then CreateDevicePc Unit}
    (move : CreateMove k i pc next)
    : ∀ s ∈ next.pointers CreateDevicePc.pointers,
        s ∈ pc.pointers ∨ ∃ i, k.tsm.allTagServices i = some s := by
  intro s member
  cases move with
  | load => exact .inr ⟨i, by simpa [Then.pointers, CreateDevicePc.pointers] using member⟩
  | _ => first | exact .inl member | cases member

omit [DecidableEq τ] in
theorem UpdateMove.pointers {i l : Int} {pc : UpdatePc} {next : Then UpdatePc Unit}
    (move : UpdateMove k external i l pc next)
    : ∀ s ∈ next.pointers UpdatePc.pointers,
        s ∈ pc.pointers ∨ ∃ i, k.tsm.allTagServices i = some s := by
  intro s member
  cases move with
  | load found =>
      obtain rfl := List.mem_singleton.mp member
      exact .inr ⟨i, found⟩
  | _ => first | exact .inl member | cases member

/-- A step holds no pointer but those it held before and what the kernel supplies, by cases on
the move.
-/
theorem pointers_of_exec {c : CallId τ} {before : Frame}
    (step : k.exec external (before.op c) = some (k', frame))
    : ∀ s ∈ frame.pointers, s ∈ before.pointers ∨ k.Supplies (before.op c) s := by
  intro s member
  have kept (within : Within before.pointers frame.pointers)
      : s ∈ before.pointers ∨ k.Supplies (before.op c) s :=
    .inl (within.held s member)
  have loaded {i : Int} {r : Ref} (found : k.tsm.allTagServices i = some r)
      (now : frame.pointers = [r])
      : s ∈ before.pointers ∨ k.Supplies (before.op c) s := by
    obtain rfl := List.mem_singleton.mp (now ▸ member)
    exact .inr (.inl ⟨i, found⟩)
  -- Inside a routine of the device driver the call also holds its own pointer.
  have inside {held now : List Ref} {r : Ref}
      (routine : ∀ s ∈ now, s ∈ held ∨ ∃ i, k.tsm.allTagServices i = some s)
      (was : before.pointers = r :: held) (is : frame.pointers = r :: now)
      : s ∈ before.pointers ∨ k.Supplies (before.op c) s := by
    rw [was]
    rcases List.mem_cons.mp (is ▸ member) with rfl | member
    · exact .inl (List.mem_cons_self ..)
    · exact (routine s member).imp (List.mem_cons_of_mem _) .inl
  have returned {held : List Ref} {r : Ref} (was : before.pointers = r :: held)
      (is : frame.pointers = [r])
      : s ∈ before.pointers ∨ k.Supplies (before.op c) s := by
    have routine : ∀ s ∈ ([] : List Ref), s ∈ held ∨ ∃ i, k.tsm.allTagServices i = some s :=
      fun _ none_ => absurd none_ List.not_mem_nil
    exact inside routine was is
  cases before with
  | user last => cases step
  | get f =>
      have step : k.exec external (tagGet c.1 f) = some (k', frame) := step
      have move := getMove_of_exec step
      obtain ⟨key, command, permission, euid, tag, ts, pc⟩ := f
      cases move with
      | creating =>
          obtain ⟨next, inner, same⟩ := created_of_exec rfl step
          cases next with
          | go pc' =>
              cases same
              exact inside inner.pointers rfl rfl
          | back => cases same
      | created => exact returned rfl rfl
      | fields => exact .inr (.inr ⟨List.mem_singleton.mp member, fun allocates => by cases allocates⟩)
      | loadOpened found => exact loaded found rfl
      | _ => first | exact kept (.refl _) | exact kept (.none _)
  | send f =>
      have move := sendMove_of_exec step
      obtain ⟨tag, level, buffer, size, euid, realSize, stored, ts, pc⟩ := f
      cases move with
      | load found => exact loaded found rfl
      | _ => first | exact kept (.refl _) | exact kept (.none _)
  | receive f =>
      have step : k.exec external (tagReceive c.1 f) = some (k', frame) := step
      have move := receiveMove_of_exec step
      obtain ⟨tag, level, buffer, size, euid, ts, realSize, interrupted, copied, pc⟩ := f
      cases move with
      | load found => exact loaded found rfl
      | entering | leaving =>
          obtain ⟨f', next, same, inner, updated⟩ := updated_of_exec rfl step
          cases same
          cases next with
          | go pc' =>
              cases updated.update
              exact inside inner.pointers rfl rfl
          | back => cases updated.update
      | entered | leftAwake => exact returned rfl rfl
      | _ => first | exact kept (.refl _) | exact kept (.none _)
  | ctl f =>
      have move := ctlMove_of_exec step
      obtain ⟨tag, command, euid, ts, index, awakened, pc⟩ := f
      cases move with
      | load found => exact loaded found rfl
      | @unlockIndex after => cases after <;> first | exact kept (.refl _) | exact kept (.none _)
      | _ => first | exact kept (.refl _) | exact kept (.none _)

-----------------------------------------------------------------------------------------
-- Reuse
-----------------------------------------------------------------------------------------

/-- The allocator gives out again only what no call and no callback points to; a callback that has only
its message left to print points to a level, and levels are not freed.
-/
def ReuseUnheld (st : State τ) : Event τ → Prop
  | .reuse s _ =>
      (∀ t, s ∉ (st.thread t).frame.pointers)
      ∧ ∀ b ∈ st.kernel.rcu.among Callback.owes, b.service ≠ s
  | _ => True

instance [Fintype τ] (st : State τ) (e : Event τ) : Decidable (ReuseUnheld st e) :=
  match e with
  | .reuse s _ =>
      inferInstanceAs (Decidable ((∀ t, s ∉ (st.thread t).frame.pointers)
        ∧ ∀ b ∈ st.kernel.rcu.among Callback.owes, b.service ≠ s))
  | .call _ _ _ | .run _ _ | .softirq _ | .signal _ => isTrue trivial

omit [DecidableEq τ] in
theorem ReuseUnheld.unseen {st : State τ} {e : Event τ} (unheld : ReuseUnheld st e)
    : ReuseUnseen st e := by
  cases e with
  | reuse s ts =>
      exact ⟨fun t points => unheld.1 t (view_service_mem_pointers points), unheld.2⟩
  | _ => trivial

end TagExchange
