import TagExchange.Model.DeviceMoves
import TagExchange.Properties.Permissions

/-! The mutexes of the char devices: each has one owner, and the texts change only under them. -/

namespace TagExchange

open Concurrency Protocol

variable {τ : Type}

-----------------------------------------------------------------------------------------
-- Indices
-----------------------------------------------------------------------------------------

/-- The index that `update_chrdev` uses is the tag it was given. -/
def UpdatePc.Indexed (k : Kernel τ) (i : Int) : UpdatePc → Prop
  | .waiting s | .index s _ => (k.service s).tag = i
  | .lock j _ | .read j _ | .free j _ | .assign j _ | .unlock j => j = i
  | .check | .load | .oops => True

variable [DecidableEq τ] {h : History (State τ) (Event τ)} {st st' : State τ} {e : Event τ} {t : τ}
  {i : Int} {s : Ref}

omit [DecidableEq τ] in
theorem mem_pointers_of_update {f : ReceiveFrame} {pc : UpdatePc} (inside : f.pc.update = some pc)
    (held : s ∈ pc.pointers)
    : s ∈ (Frame.receive f).pointers := by
  obtain ⟨tag, level, buffer, size, euid, ts, realSize, interrupted, copied, point⟩ := f
  cases point <;> cases inside
  all_goals exact List.mem_cons_of_mem _ held

omit [DecidableEq τ] in
/-- A receiver that enters `update_chrdev` or is in it was in it before, or is at its check. -/
theorem update_of_move {k : Kernel τ} {f f' : ReceiveFrame} {pc : UpdatePc}
    (outside : f.pc.update = none) (move : ReceiveMove k t f f.pc (.receive f'))
    (inside : f'.pc.update = some pc)
    : pc = .check := by
  obtain ⟨tag, level, buffer, size, euid, ts, realSize, interrupted, copied, point⟩ := f
  cases move <;> first | cases outside; done | cases inside
  all_goals rfl

/-- A receiver that is in `update_chrdev` after its step has just come to the check there, or has made
a move of that function.
-/
theorem update_of_exec {k : Kernel τ} {external : Nat} {f' : ReceiveFrame} {pc' : UpdatePc}
    (exec : st.kernel.exec external (st.op t) = some (k, .receive f'))
    (inside : f'.pc.update = some pc')
    : pc' = .check
      ∨ ∃ f pc,
          (st.thread t).frame = .receive f
          ∧ f.pc.update = some pc
          ∧ UpdateMove st.kernel external f.tag f.level pc (.go pc')
          ∧ f'.tag = f.tag
          ∧ f'.level = f.level := by
  have same := Kernel.exec_sameCall exec
  cases here : (st.thread t).frame with
  | receive f =>
      rw [State.op, here] at exec
      have exec : st.kernel.exec external (tagReceive t f) = some (k, .receive f') := exec
      cases within : f.pc.update with
      | none => exact .inl (update_of_move within (receiveMove_of_exec exec) inside)
      | some pc =>
          obtain ⟨f₁, next, frame, move, tag, level, -, update⟩ := updated_of_exec within exec
          obtain rfl := Frame.receive.inj frame
          cases next with
          | go pc₁ =>
              obtain rfl : pc₁ = pc' := Option.some.inj (update.symm.trans inside)
              exact .inr ⟨f, pc, rfl, within, move, tag, level⟩
          | back => cases update.symm.trans inside
  | _ => rw [here] at same; cases same

/-- The indices that receivers use are their own tags, by cases on the moves. -/
theorem indexed_run (run : (machine τ).Run Unheld h st)
    : ∀ {t f pc},
        (st.thread t).frame = .receive f
        → f.pc.update = some pc
        → pc.Indexed st.kernel f.tag := by
  refine run.invariant
    (P := fun _ st => ∀ {t f pc},
      (st.thread t).frame = .receive f
      → f.pc.update = some pc
      → pc.Indexed st.kernel f.tag)
    (fun here => by cases here) ?_
  intro h st e st' before indexed ok step t f' pc' after inside
  have step : st.step e = some st' := step
  have tag {s : Ref} (held : s ∈ (st.thread t).frame.pointers)
      : (st'.kernel.service s).tag = (st.kernel.service s).tag :=
    field_of_step Write.apply_tag step (pointers_born before t s held)
      (ReuseUnheld.kept_of_pointer ok held)
  cases turn_of_step step t with
  | rest other thread =>
      rw [thread] at after
      have old := indexed after inside
      have held {s} (pointed : s ∈ pc'.pointers) : s ∈ (st.thread t).frame.pointers := by
        rw [after]
        exact mem_pointers_of_update inside pointed
      cases pc' with
      | waiting s => exact (tag (held (List.mem_singleton_self _))).trans old
      | index s n => exact (tag (held (List.mem_singleton_self _))).trans old
      | _ => exact old
  | @enter euid c event idle thread =>
      rw [thread] at after
      cases c <;> cases after
      cases inside
  | @go external frame event exec thread =>
      subst event
      rw [thread] at after
      obtain rfl : frame = .receive f' := after
      rcases update_of_exec exec inside with rfl | ⟨f, pc, here, within, move, sameTag, -⟩
      · trivial
      · have old := indexed here within
        have held {s} (pointed : s ∈ pc.pointers) : s ∈ (st.thread t).frame.pointers := by
          rw [here]
          exact mem_pointers_of_update within pointed
        rw [sameTag]
        cases move with
        | @load s found =>
            obtain ⟨tagged, -⟩ := (Unheld.safe before).slots found
            have born := ((homes_run before).slot found).1
            exact (field_of_step Write.apply_tag step born fun same => by cases same).trans
              tagged.2.1
        | waiting => exact (tag (held (List.mem_singleton_self _))).trans old
        | _ => first | exact old | trivial

-----------------------------------------------------------------------------------------
-- Owners
-----------------------------------------------------------------------------------------

def CreateDevicePc.holds : CreateDevicePc → Bool
  | .add _ | .node _ | .content _ | .noContent | .fill _ | .count _ _ | .print _ _ _ | .write _
  | .unlock _ | .oops => true
  | .load | .lock _ | .delete => false

/-- A receiver that finds no text stops with the mutex. -/
def UpdatePc.holds : UpdatePc → Bool
  | .read _ _ | .free _ _ | .assign _ _ | .unlock _ | .oops => true
  | .check | .load | .waiting _ | .index _ _ | .lock _ _ => false

def DestroyDevicePc.holds : DestroyDevicePc → Bool
  | .node | .content | .unlock => true
  | .lock => false

/-- The char device whose mutex a call owns. -/
def Frame.deviceHolds : Frame → Option Int
  | get f =>
      match f.pc with
      | .device pc => if pc.holds then some f.tag else none
      | _ => none
  | receive f =>
      match f.pc.update with
      | some pc => if pc.holds then some f.tag else none
      | none => none
  | ctl f =>
      match f.pc with
      | .destroy pc => if pc.holds then some f.index else none
      | _ => none
  | _ => none

/-- What a step of a call does to the mutexes of the devices. -/
inductive DeviceTurn (before after : Frame) : Prop
  | lock {i : Int} (access : before.device = some (.lock i)) (out : before.deviceHolds = none)
    (now : after.deviceHolds = some i)
  | unlock {i : Int} (access : before.device = some (.unlock i)) (here : before.deviceHolds = some i)
    (gone : after.deviceHolds = none)
  | keep (same : after.deviceHolds = before.deviceHolds)
    (quiet : ∀ i, before.device ≠ some (.lock i) ∧ before.device ≠ some (.unlock i))

/-- The device whose mutex an update holds after a step. -/
def Then.holds (i : Int) : Then UpdatePc Unit → Option Int
  | .go pc => if pc.holds then some i else none
  | .back _ => none

/-- A call locks and unlocks one device at a time, by cases on its moves. -/
theorem deviceTurn_of_exec {k k' : Kernel τ} {external : Nat} {c : CallId τ} {before after : Frame}
    (indexed
      : ∀ f pc, before = .receive f → f.pc.update = some pc → pc.Indexed k f.tag)
    (exec : k.exec external (before.op c) = some (k', after))
    : DeviceTurn before after := by
  have same := Kernel.exec_sameCall exec
  cases before with
  | user last => cases exec
  | get f =>
      change k.exec external (tagGet c.1 f) = _ at exec
      have move := getMove_of_exec exec
      obtain ⟨key, command, permission, euid, tag, ts, pc⟩ := f
      cases pc
      case device pc =>
        obtain ⟨next, inner, rfl⟩ := created_of_exec rfl exec
        cases inner with
        | lock => exact .lock rfl rfl rfl
        | unlockFailed => exact .unlock rfl rfl rfl
        | unlock => exact .unlock rfl rfl rfl
        | _ => exact .keep rfl fun _ => ⟨fun same => (by cases same), fun same => (by cases same)⟩
      all_goals
        refine .keep ?_ fun _ => ⟨fun same => (by cases same), fun same => (by cases same)⟩
        cases move <;> rfl
  | send f =>
      refine .keep ?_ fun _ => ⟨fun same => (by cases same), fun same => (by cases same)⟩
      cases after <;> first | rfl | cases same
  | receive f =>
      change k.exec external (tagReceive c.1 f) = _ at exec
      cases within : f.pc.update with
      | none =>
          have holds : (Frame.receive f).deviceHolds = none := by
            simp only [Frame.deviceHolds, within]
          refine .keep ?_ fun _ => ?_
          · rw [holds]
            cases after with
            | receive f' =>
                cases inside : f'.pc.update with
                | none => simp only [Frame.deviceHolds, inside]
                | some pc =>
                    have check := update_of_move within (receiveMove_of_exec exec) inside
                    subst check
                    simp only [Frame.deviceHolds, inside]
                    rfl
            | user last => rfl
            | _ => cases same
          · simp only [Frame.device, within]
            exact ⟨fun same => (by cases same), fun same => (by cases same)⟩
      | some pc =>
          obtain ⟨f', next, rfl, move, tag, -, -, update⟩ := updated_of_exec within exec
          have index := indexed f pc rfl within
          have device : (Frame.receive f).device = pc.device := by
            simp only [Frame.device, within, Option.bind_some]
          have holds : (Frame.receive f).deviceHolds = if pc.holds then some f.tag else none := by
            simp only [Frame.deviceHolds, within]
          have next_holds : (Frame.receive f').deviceHolds = next.holds f.tag := by
            cases next with
            | go pc' =>
                have update : f'.pc.update = some pc' := update
                simp only [Frame.deviceHolds, update, tag, Then.holds]
            | back =>
                have update : f'.pc.update = none := update
                simp only [Frame.deviceHolds, update, Then.holds]
          cases move with
          | @lock j n free =>
              obtain rfl : j = f.tag := index
              exact .lock device holds next_holds
          | @unlock j =>
              obtain rfl : j = f.tag := index
              exact .unlock device holds next_holds
          | _ =>
              refine .keep (next_holds.trans holds.symm) fun _ => ?_
              rw [device]
              exact ⟨fun same => (by cases same), fun same => (by cases same)⟩
  | ctl f =>
      change k.exec external (tagCtl c f) = _ at exec
      have move := ctlMove_of_exec exec
      obtain ⟨tag, command, euid, ts, index, awakened, pc⟩ := f
      cases pc
      case destroy pc =>
        obtain ⟨next, inner, rfl⟩ := destroyed_of_exec rfl exec
        cases inner with
        | lock => exact .lock rfl rfl rfl
        | unlock => exact .unlock rfl rfl rfl
        | _ => exact .keep rfl fun _ => ⟨fun same => (by cases same), fun same => (by cases same)⟩
      all_goals
        refine .keep ?_ fun _ => ⟨fun same => (by cases same), fun same => (by cases same)⟩
        cases move <;> rfl

/-- At any moment the mutex of a device has at most one owner. -/
theorem exclusive_run (run : (machine τ).Run Unheld h st)
    : Exclusive st.kernel.dm.deviceLock (fun t => (st.thread t).frame.deviceHolds) [] := by
  refine run.invariant
    (P := fun _ st => Exclusive st.kernel.dm.deviceLock
      (fun t => (st.thread t).frame.deviceHolds) [])
    { held := by simp [machine, State.start, Frame.deviceHolds]
      one := fun here => by cases here
      apart := fun here => by cases here
      once := List.nodup_nil } ?_
  intro h st e st' before x ok step
  have step : st.step e = some st' := step
  have dm := dm_of_step step
  cases State.steps_of_step step with
  | @call u euid c last user =>
      have same : (fun t => ((st.setThread u ⟨(st.thread u).calls + 1, c.enter euid⟩).thread t).frame
          |>.deviceHolds) = fun t => (st.thread t).frame.deviceHolds := by
        funext t
        rw [State.setThread_frame]
        split
        · next here =>
            subst here
            rw [user]
            cases c <;> rfl
        · rfl
      rw [same]
      exact x
  | @run u external k frame exec =>
      have holds : (fun t => (({ st with kernel := k }.setThread u ⟨(st.thread u).calls, frame⟩).thread
          t).frame.deviceHolds)
          = Function.update (fun t => (st.thread t).frame.deviceHolds) u frame.deviceHolds := by
        funext t
        rw [State.setThread_frame]
        rcases eq_or_ne t u with rfl | other
        · simp
        · simp [other]
      have locks : ({ st with kernel := k }.setThread u ⟨(st.thread u).calls, frame⟩).kernel.dm
          = k.dm := rfl
      have device : st.device (.run u external) = (st.thread u).frame.device := rfl
      rw [device] at dm
      rw [holds]
      have turn := deviceTurn_of_exec (fun f pc => indexed_run before (t := u)) exec
      cases turn with
      | @lock i access out now =>
          have free : st.kernel.dm.deviceLock i = false :=
            Kernel.exec_deviceLock exec (by rw [State.op, op_device, access])
          rw [now, dm, access]
          exact x.acquire out free
      | @unlock i access here gone =>
          rw [gone, dm, access]
          exact x.release here
      | keep same quiet =>
          have lock : k.dm.deviceLock = st.kernel.dm.deviceLock := by
            rw [← locks, dm]
            cases access : (st.thread u).frame.device with
            | none => rfl
            | some a =>
                cases a with
                | lock i => exact absurd access (quiet i).1
                | unlock i => exact absurd access (quiet i).2
                | newText i => rfl
                | clearText i => rfl
                | storeText i text => rfl
                | writeText i text => exact DevManager.change_deviceLock ..
                | freeText i => exact DevManager.change_deviceLock ..
          rw [locks, lock, same, Function.update_eq_self]
          exact x
  | @softirq n b k next ready exec =>
      rw [show ({ st with kernel := { k with rcu := k.rcu.advance n next } } : State τ).kernel.dm
        = st.kernel.dm from dm]
      exact x
  | _ => exact x

/-- The device whose text an access changes. -/
def DeviceAccess.texts : DeviceAccess → Option Int
  | newText i | clearText i | writeText i _ | freeText i | storeText i _ => some i
  | lock _ | unlock _ => none

/-- The text of a device changes only under its mutex, by cases on the program point. -/
theorem deviceHolds_of_texts (run : (machine τ).Run Unheld h st) {access : DeviceAccess}
    (device : (st.thread t).frame.device = some access) (texts : access.texts = some i)
    : (st.thread t).frame.deviceHolds = some i := by
  have indexed (f pc)
      : (st.thread t).frame = .receive f → f.pc.update = some pc → pc.Indexed st.kernel f.tag :=
    indexed_run run
  cases here : (st.thread t).frame with
  | get f =>
      obtain ⟨key, command, permission, euid, tag, ts, pc⟩ := f
      rw [here] at device
      cases pc
      case device pc =>
        cases pc <;> cases device <;> cases texts
        all_goals rfl
      all_goals cases device
  | receive f =>
      rw [here] at device indexed
      simp only [Frame.device] at device
      cases within : f.pc.update with
      | none => rw [within] at device; cases device
      | some pc =>
          rw [within] at device
          have index := indexed f pc rfl within
          simp only [Frame.deviceHolds, within]
          cases pc <;> cases device <;> cases texts
          all_goals
            obtain rfl := index
            rfl
  | ctl f =>
      obtain ⟨tag, command, euid, ts, index, awakened, pc⟩ := f
      rw [here] at device
      cases pc
      case destroy pc =>
        cases pc <;> cases device <;> cases texts
        rfl
      all_goals cases device
  | _ => rw [here] at device; cases device

end TagExchange
