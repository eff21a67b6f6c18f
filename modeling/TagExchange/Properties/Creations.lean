import TagExchange.Properties.DeviceLocks
import TagExchange.Properties.ReadSections

/-! The stages of a creation: the service is published, its device is built, and a last message
is printed. A creation goes through them once, and no two creations make the same service.
-/

namespace TagExchange

open Concurrency Protocol

variable {τ : Type}

-----------------------------------------------------------------------------------------
-- Stages
-----------------------------------------------------------------------------------------

/-- How far a creation has come with its service. -/
inductive CreationStage
  /-- The service is filled and not published. -/
  | publishing
  /-- The service is published and its device has no text. -/
  | building
  /-- The text has been allocated and is being written. -/
  | filling
  /-- The device is made. -/
  | made
  /-- The mutex of the device is free again. -/
  | finishing
deriving DecidableEq

/-- Without memory for the text the creation comes no further. -/
def CreateDevicePc.stage : CreateDevicePc → Option CreationStage
  | .load | .lock _ | .add _ | .node _ | .content _ => some .building
  | .fill _ | .count _ _ | .print _ _ _ | .write _ => some .filling
  | .unlock _ | .delete => some .made
  | .noContent | .oops => none

/-- At any of these stages the device is still to be made. -/
def CreationStage.Lasts (stage : CreationStage) : Prop :=
  stage = .building ∨ stage = .filling ∨ stage = .made

theorem CreateDevicePc.lasts_of_stage {pc : CreateDevicePc} {stage : CreationStage}
    (now : pc.stage = some stage)
    : stage.Lasts := by
  cases pc <;> cases now <;> simp [CreationStage.Lasts]

def GetPc.stage : GetPc → Option CreationStage
  | .publish => some .publishing
  | .unlockCreated | .decRemaining => some .building
  | .device pc => pc.stage
  | .print => some .finishing
  | _ => none

/-- The creation that a call is in: its stage, its slot and its service. -/
def Frame.creation : Frame → Option (CreationStage × Int × Ref)
  | get f => f.pc.stage.map fun stage => (stage, f.tag, f.ts)
  | _ => none

/-- The slot and the service whose device a creation is about to give a text, and the service
it has found in the slot.
-/
def Frame.erects : Frame → Option (Int × Option Ref)
  | get f =>
      match f.pc with
      | .device (.content ts) => some (f.tag, ts)
      | _ => none
  | _ => none

/-- A creation that is about to register its device with the kernel. -/
def Frame.addsDevice : Frame → Bool
  | get f =>
      match f.pc with
      | .device (.add _) | .device (.node _) => true
      | _ => false
  | _ => false

/-- A step of a call, from the creation it is in before to the one it is in afterwards. -/
inductive CreationTurn (k : Kernel τ) (frame : Frame)
    : Option (CreationStage × Int × Ref) → Option (CreationStage × Int × Ref) → Prop
  | out : CreationTurn k frame none none
  | fields {i : Int} : CreationTurn k frame none (some (.publishing, i, k.services))
  | publish {i : Int} {s : Ref}
    : CreationTurn k frame (some (.publishing, i, s)) (some (.building, i, s))
  | keep {stage : CreationStage} {i : Int} {s : Ref} (lasts : stage.Lasts)
    (unchanged : ∀ access, frame.device = some access → access.texts = none)
    : CreationTurn k frame (some (stage, i, s)) (some (stage, i, s))
  | content {i : Int} {s : Ref} {ts : Option Ref} (erects : frame.erects = some (i, ts))
    : CreationTurn k frame (some (.building, i, s)) (some (.filling, i, s))
  | write {i : Int} {s : Ref} {text : Text} (device : frame.device = some (.writeText i text))
    : CreationTurn k frame (some (.filling, i, s)) (some (.made, i, s))
  | finish {i : Int} {s : Ref}
    : CreationTurn k frame (some (.made, i, s)) (some (.finishing, i, s))
  | leave {i : Int} {s : Ref} : CreationTurn k frame (some (.finishing, i, s)) none

variable [DecidableEq τ] {k k' : Kernel τ} {external : Nat}

/-- A creation goes on to its next stage when the kernel registers its device, by cases on the
moves.
-/
theorem creationTurn_of_exec {c : CallId τ} {before after : Frame}
    (registered : before.addsDevice = true → external = 0)
    (exec : k.exec external (before.op c) = some (k', after))
    : CreationTurn k before before.creation after.creation := by
  have same := Kernel.exec_sameCall exec
  cases before with
  | get f =>
      change k.exec external (tagGet c.1 f) = _ at exec
      have move := getMove_of_exec exec
      obtain ⟨key, command, permission, euid, tag, ts, pc⟩ := f
      cases pc
      case device pc =>
        cases pc
        case add ts' =>
          obtain rfl := registered rfl
          obtain ⟨-, rfl⟩ := Prod.mk.inj (Option.some.inj exec)
          exact .keep (by simp [CreationStage.Lasts]) fun access device => (by cases device)
        case node ts' =>
          obtain rfl := registered rfl
          obtain ⟨-, rfl⟩ := Prod.mk.inj (Option.some.inj exec)
          exact .keep (by simp [CreationStage.Lasts]) fun access device => (by cases device)
        all_goals
          obtain ⟨next, inner, rfl⟩ := created_of_exec rfl exec
          cases inner
        case content => exact .content rfl
        case write => exact .write rfl
        case unlock => exact .finish
        case delete => exact .finish
        case clear => exact .out
        all_goals
          exact .keep (by simp [CreationStage.Lasts]) fun access device => (by cases device <;> rfl)
      case fields =>
        cases move
        exact .fields
      case publish =>
        cases move
        exact .publish
      case unlockCreated =>
        cases move
        exact .keep (.inl rfl) fun access device => (by cases device)
      case decRemaining =>
        cases move
        exact .keep (.inl rfl) fun access device => (by cases device)
      case print =>
        cases move
        exact .leave
      all_goals cases move <;> exact .out
  | user last => cases exec
  | _ => cases after <;> first | exact .out | cases same

-----------------------------------------------------------------------------------------
-- Creations over runs
-----------------------------------------------------------------------------------------

/-- The slot and the service of a creation that has still to make the device. -/
def Frame.equips (frame : Frame) : Option (Int × Ref) :=
  match frame.creation with
  | some (.building, i, s) | some (.filling, i, s) | some (.made, i, s) => some (i, s)
  | _ => none

/-- The service that a creation has found in its slot once more. -/
def CreateDevicePc.loaded : CreateDevicePc → Option (Option Ref)
  | .lock ts | .add ts | .node ts | .content ts | .fill ts => some ts
  | .count ts _ | .print ts _ _ => some (some ts)
  | .load | .noContent | .write _ | .unlock _ | .delete | .oops => none

/-- The kernel registers every device that a creation asks for, and no service is marked as
deleted before its creation has made its device.
-/
def MakesDevices : Guard (State τ) (Event τ) :=
  fun _ st e =>
    ReuseUnheld st e
    ∧ (∀ t external,
        e = .run t external → (st.thread t).frame.addsDevice = true → external = 0)
    ∧ ∀ s, st.writes e = some (s, .lazyDeleted) → ∀ t i, (st.thread t).frame.equips ≠ some (i, s)

variable {h : History (State τ) (Event τ)} {st st' : State τ} {e : Event τ} {t u : τ}
  {i j : Int} {s : Ref} {stage : CreationStage}

theorem MakesDevices.unheld (run : (machine τ).Run MakesDevices h st)
    : (machine τ).Run Unheld h st :=
  run.mono fun _ _ _ ok => ok.1

omit [DecidableEq τ] in
theorem creation_mem_pointers {frame : Frame} (creation : frame.creation = some (stage, i, s))
    : s ∈ frame.pointers := by
  cases frame with
  | get f =>
      obtain ⟨key, command, permission, euid, tag, ts, pc⟩ := f
      cases pc
      case device pc =>
        cases pc <;> cases creation
        all_goals exact List.mem_cons_self
      all_goals cases creation
      all_goals exact List.mem_cons_self
  | _ => cases creation

omit [DecidableEq τ] in
theorem equips_iff {frame : Frame}
    : frame.equips = some (i, s)
      ↔ ∃ stage : CreationStage, stage.Lasts ∧ frame.creation = some (stage, i, s) := by
  unfold Frame.equips
  constructor
  · intro equips
    split at equips
    · next now => cases equips; exact ⟨_, .inl rfl, now⟩
    · next now => cases equips; exact ⟨_, .inr (.inl rfl), now⟩
    · next now => cases equips; exact ⟨_, .inr (.inr rfl), now⟩
    · cases equips
  · rintro ⟨stage, rfl | rfl | rfl, now⟩ <;> rw [now]

/-- What a step does to the creation that a thread is in. -/
theorem creationTurn_of_step (ok : MakesDevices h st e) (step : st.step e = some st') (t : τ)
    : ((st'.thread t).frame.creation = (st.thread t).frame.creation
        ∧ ∀ external, e ≠ .run t external)
      ∨ ((∃ external, e = .run t external)
        ∧ CreationTurn st.kernel (st.thread t).frame (st.thread t).frame.creation
            (st'.thread t).frame.creation) := by
  cases turn_of_step step t with
  | rest other thread => exact .inl ⟨by rw [thread], other⟩
  | @enter euid c event idle thread =>
      obtain ⟨last, user⟩ := Frame.eq_user_of_idle idle
      refine .inl ⟨?_, fun external same => by cases event.symm.trans same⟩
      rw [thread, user]
      cases c <;> rfl
  | @go external frame event exec thread =>
      refine .inr ⟨⟨external, event⟩, ?_⟩
      rw [thread]
      exact creationTurn_of_exec (ok.2.1 t external event) exec

/-- A creation was the same before a step, or the service has just been allocated. -/
theorem creation_of_step (ok : MakesDevices h st e) (step : st.step e = some st')
    (after : (st'.thread t).frame.creation = some (stage, i, s))
    : (∃ earlier, (st.thread t).frame.creation = some (earlier, i, s))
      ∨ (s = st.kernel.services ∧ ∃ external, e = .run t external) := by
  rcases creationTurn_of_step ok step t with ⟨same, -⟩ | ⟨event, turn⟩
  · exact .inl ⟨stage, same ▸ after⟩
  · rw [after] at turn
    generalize here : (st.thread t).frame.creation = creation at turn
    cases turn with
    | fields => exact .inr ⟨rfl, event⟩
    | _ => exact .inl ⟨_, rfl⟩

/-- No two creations make the same service. -/
theorem creator_unique (run : (machine τ).Run MakesDevices h st)
    : ∀ {t u a b i j s},
        (st.thread t).frame.creation = some (a, i, s)
        → (st.thread u).frame.creation = some (b, j, s)
        → t = u := by
  refine run.invariant
    (P := fun _ st => ∀ {t u a b i j s},
      (st.thread t).frame.creation = some (a, i, s)
      → (st.thread u).frame.creation = some (b, j, s)
      → t = u)
    (fun here => by cases here) ?_
  intro h st e st' before unique ok step t u a b i j s here there
  have born {t} (held : s ∈ (st.thread t).frame.pointers) : s ≠ st.kernel.services :=
    Nat.ne_of_lt (pointers_born before t s held)
  rcases creation_of_step ok step here with ⟨_, old⟩ | ⟨new, external, event⟩
  · rcases creation_of_step ok step there with ⟨_, old'⟩ | ⟨new, -⟩
    · exact unique old old'
    · exact absurd new (born (creation_mem_pointers old))
  · rcases creation_of_step ok step there with ⟨_, old'⟩ | ⟨-, external', event'⟩
    · exact absurd new (born (creation_mem_pointers old'))
    · exact (Event.run.inj (event.symm.trans event')).1

/-- A creation prints its last message. -/
def Completes (i : Int) (s : Ref) : Guard (State τ) (Event τ) :=
  fun _ st e =>
    ∃ t external,
      e = .run t external ∧ (st.thread t).frame.creation = some (.finishing, i, s)

/-- What a creation has completed, no creation is at. -/
theorem completed_run (run : (machine τ).Run MakesDevices h st) (once : Once (Completes i s) h)
    : s < st.kernel.services ∧ ∀ t stage j, (st.thread t).frame.creation ≠ some (stage, j, s) := by
  induction run with
  | start => cases once
  | @next h st e st' before ok step ih =>
      have step : st.step e = some st' := step
      have grows := services_of_step step
      cases once with
      | here now =>
          obtain ⟨t, external, rfl, finishing⟩ := now
          have born := pointers_born before t s (creation_mem_pointers finishing)
          refine ⟨Nat.lt_of_lt_of_le born grows, fun u stage j after => ?_⟩
          rcases creation_of_step ok step after with ⟨_, old⟩ | ⟨new, -⟩
          · obtain rfl := creator_unique before finishing old
            rcases creationTurn_of_step ok step t with ⟨-, other⟩ | ⟨-, turn⟩
            · exact other external rfl
            · rw [finishing, after] at turn
              cases turn with
              | keep lasts _ => rcases lasts with same | same | same <;> cases same
          · exact absurd new (Nat.ne_of_lt born)
      | later earlier _ =>
          obtain ⟨born, nobody⟩ := ih earlier
          refine ⟨Nat.lt_of_lt_of_le born grows, fun u stage j after => ?_⟩
          rcases creation_of_step ok step after with ⟨_, old⟩ | ⟨new, -⟩
          · exact nobody u _ j old
          · exact absurd new (Nat.ne_of_lt born)

omit [DecidableEq τ] in
theorem noContent_of_lost {frame : Frame} (lost : frame.device = some (.clearText i))
    : ∃ f, frame = .get f ∧ f.pc = .device .noContent := by
  cases frame with
  | get f =>
      obtain ⟨key, command, permission, euid, tag, ts, pc⟩ := f
      cases pc
      case device pc => cases pc <;> cases lost; exact ⟨_, rfl, rfl⟩
      all_goals cases lost
  | receive f =>
      simp only [Frame.device] at lost
      cases within : f.pc.update with
      | none => rw [within] at lost; cases lost
      | some pc => rw [within] at lost; cases pc <;> cases lost
  | ctl f =>
      obtain ⟨tag, command, euid, ts, index, awakened, pc⟩ := f
      cases pc
      case destroy pc => cases pc <;> cases lost
      all_goals cases lost
  | _ => cases lost

/-- A creation has no memory for its text where the kernel has refused it. -/
theorem adds_of_lost {k k' : Kernel τ} {external : Nat} {c : CallId τ} {before after : Frame}
    (exec : k.exec external (before.op c) = some (k', after))
    (lost : after.device = some (.clearText i))
    : before.addsDevice = true ∧ external ≠ 0 := by
  obtain ⟨f', rfl, point⟩ := noContent_of_lost lost
  have same := Kernel.exec_sameCall exec
  cases before with
  | get f =>
      change k.exec external (tagGet c.1 f) = _ at exec
      have move := getMove_of_exec exec
      obtain ⟨key, command, permission, euid, tag, ts, pc⟩ := f
      cases pc
      case device pc =>
        by_cases adds : ∃ found, pc = .node found
        · obtain ⟨found, rfl⟩ := adds
          refine ⟨rfl, ?_⟩
          rintro rfl
          obtain ⟨-, same⟩ := Prod.mk.inj (Option.some.inj exec)
          obtain rfl := Frame.get.inj same
          cases point
        · obtain ⟨next, inner, frame⟩ := created_of_exec rfl exec
          cases inner <;> obtain rfl := Frame.get.inj frame <;> cases point
          exact absurd ⟨_, rfl⟩ adds
      all_goals cases move <;> cases point
  | _ => cases same

/-- Where devices are made, every creation has memory for its text. -/
theorem unlost_run (run : (machine τ).Run MakesDevices h st)
    : ∀ {t i}, (st.thread t).frame.device ≠ some (.clearText i) := by
  refine run.invariant (P := fun _ st => ∀ {t i}, (st.thread t).frame.device ≠ some (.clearText i))
    (fun here => by cases here) ?_
  intro h st e st' before unlost ok step t i after
  cases turn_of_step step t with
  | rest _ thread => exact unlost (thread ▸ after)
  | @enter euid c _ _ thread =>
      rw [thread] at after
      cases c <;> cases after
  | @go external frame event exec thread =>
      rw [thread] at after
      obtain ⟨adds, failed⟩ := adds_of_lost exec after
      exact failed (ok.2.1 t external event adds)

-----------------------------------------------------------------------------------------
-- The slot of a creation
-----------------------------------------------------------------------------------------

/-- A registered service stays unmarked until a removal marks it. -/
theorem unmarked_of_step (run : (machine τ).Run Unheld h st) (step : st.step e = some st')
    (found : st.kernel.tsm.allTagServices i = some s)
    (alive : (st.kernel.service s).lazyDeleted = false)
    (unmarked : st.writes e ≠ some (s, .lazyDeleted))
    : (st'.kernel.service s).lazyDeleted = false := by
  obtain ⟨born, unfreed⟩ := (homes_run run).slot found
  rw [service_of_step step born (kept_of_unfreed step unfreed)]
  split
  · next r w writes =>
      split
      · next same =>
          subst same
          cases w
          case lazyDeleted => exact absurd writes unmarked
          all_goals exact alive
      · exact alive
  · exact alive

omit [DecidableEq τ] in
theorem creation_of_stores {c : CallId τ} {frame : Frame}
    (stores : (frame.op c).stores = some (i, some s))
    : frame.creation = some (.publishing, i, s) := by
  rcases point_of_stores stores with
    ⟨key, command, permission, euid, r, same, rfl⟩ | ⟨command, euid, r, index, awakened, none_, -⟩
  · cases same
    rfl
  · cases none_

omit [DecidableEq τ] in
/-- What a creation is about to publish is unmarked, and its slot is empty. -/
theorem fresh_of_publishing (x : Safe st.kernel.core st.view)
    (publishing : (st.thread t).frame.creation = some (.publishing, i, s))
    : st.kernel.tsm.allTagServices i = none ∧ (st.kernel.service s).lazyDeleted = false := by
  have fact := x.fact t
  cases here : (st.thread t).frame with
  | get f =>
      obtain ⟨key, command, permission, euid, tag, ts, pc⟩ := f
      simp only [State.view] at fact
      rw [here] at publishing fact
      cases pc
      case device pc => cases pc <;> cases publishing
      all_goals cases publishing
      exact ⟨fact.2.2.2.1, fact.2.2.1⟩
  | _ => rw [here] at publishing; cases publishing

/-- A creation publishes a service that is not marked as deleted. -/
theorem published_of_step (run : (machine τ).Run Unheld h st) {external : Nat}
    (step : st.step (.run t external) = some st')
    (publishing : (st.thread t).frame.creation = some (.publishing, i, s))
    : st'.kernel.tsm.allTagServices i = some s ∧ (st'.kernel.service s).lazyDeleted = false := by
  obtain ⟨-, alive⟩ := fresh_of_publishing (Unheld.safe run) publishing
  cases State.steps_of_step step with
  | @run t external k frame exec =>
      cases here : (st.thread t).frame with
      | get f =>
          obtain ⟨key, command, permission, euid, tag, ts, pc⟩ := f
          rw [here] at publishing
          rw [State.op, here] at exec
          cases pc
          case device pc => cases pc <;> cases publishing
          all_goals cases publishing
          obtain ⟨rfl, rfl⟩ := Prod.mk.inj (Option.some.inj exec)
          exact ⟨Function.update_self .., alive⟩
      | _ => rw [here] at publishing; cases publishing

/-- What is in a slot was there before, or a creation publishes it. -/
theorem slot_before_step (step : st.step e = some st')
    (after : st'.kernel.tsm.allTagServices i = some s)
    : st.kernel.tsm.allTagServices i = some s
      ∨ ∃ t external,
          e = .run t external ∧ (st.thread t).frame.creation = some (.publishing, i, s) := by
  cases State.steps_of_step step with
  | @run t external k frame exec =>
      rcases Kernel.exec_slot exec after with before | stores
      · exact .inl before
      · exact .inr ⟨t, external, rfl, creation_of_stores stores⟩
  | @softirq n b k next ready exec => exact .inl ((homes_of_callback exec).1 ▸ after)
  | _ => exact .inl after

/-- Until the device is made, the service is in its slot and not marked as deleted, by cases on
the step of the creation.
-/
theorem equips_run (run : (machine τ).Run MakesDevices h st)
    : ∀ {t i s},
        (st.thread t).frame.equips = some (i, s)
        → st.kernel.tsm.allTagServices i = some s
          ∧ (st.kernel.service s).lazyDeleted = false := by
  refine run.invariant
    (P := fun _ st => ∀ {t i s},
      (st.thread t).frame.equips = some (i, s)
      → st.kernel.tsm.allTagServices i = some s
        ∧ (st.kernel.service s).lazyDeleted = false)
    (fun here => by cases here) ?_
  intro h st e st' before registered ok step t i s after
  have step : st.step e = some st' := step
  have unheld := MakesDevices.unheld before
  have x := Unheld.safe unheld
  have stays (equips : (st.thread t).frame.equips = some (i, s))
      : st'.kernel.tsm.allTagServices i = some s
        ∧ (st'.kernel.service s).lazyDeleted = false := by
    obtain ⟨found, alive⟩ := registered equips
    refine ⟨(slot_of_step x step found).resolve_right (by simp [alive]), ?_⟩
    exact unmarked_of_step unheld step found alive fun marks => ok.2.2 s marks t i equips
  obtain ⟨stage, lasts, now⟩ := equips_iff.mp after
  have earlier {stage : CreationStage} (lasts : stage.Lasts)
      (here : (st.thread t).frame.creation = some (stage, i, s))
      : st'.kernel.tsm.allTagServices i = some s
        ∧ (st'.kernel.service s).lazyDeleted = false :=
    stays (equips_iff.mpr ⟨stage, lasts, here⟩)
  rcases creationTurn_of_step ok step t with ⟨same, -⟩ | ⟨⟨external, rfl⟩, turn⟩
  · exact earlier lasts (same ▸ now)
  · rw [now] at turn
    generalize here : (st.thread t).frame.creation = creation at turn
    cases turn with
    | publish => exact published_of_step unheld step here
    | keep lasts _ => exact earlier lasts here
    | content _ => exact earlier (.inl rfl) here
    | write _ => exact earlier (.inr (.inl rfl)) here
    | _ => rcases lasts with same | same | same <;> cases same

/-- A creation goes on with the service that is in its slot, by cases on the moves. -/
theorem loaded_run (run : (machine τ).Run MakesDevices h st)
    : ∀ {t f pc ts},
        (st.thread t).frame = .get f → f.pc = .device pc → pc.loaded = some ts → ts = some f.ts := by
  refine run.invariant
    (P := fun _ st => ∀ {t f pc ts},
      (st.thread t).frame = .get f → f.pc = .device pc → pc.loaded = some ts → ts = some f.ts)
    (fun here => by cases here) ?_
  intro h st e st' before same ok step t f' pc' ts after point loaded
  have step : st.step e = some st' := step
  cases turn_of_step step t with
  | rest _ thread => exact same (thread ▸ after) point loaded
  | @enter euid c _ _ thread =>
      rw [thread] at after
      cases c <;> cases after
      cases point
  | @go external frame _ exec thread =>
      rw [thread] at after
      obtain rfl : frame = .get f' := after
      have call := Kernel.exec_sameCall exec
      cases here : (st.thread t).frame with
      | get f =>
          rw [State.op, here] at exec
          have exec : st.kernel.exec external (tagGet t f) = _ := exec
          cases inside : f.pc with
          | device pc =>
              obtain ⟨next, move, frame⟩ := created_of_exec inside exec
              have old {ts} : pc.loaded = some ts → ts = some f.ts := same here inside
              have equips {stage} (now : pc.stage = some stage)
                  : (st.thread t).frame.equips = some (f.tag, f.ts) := by
                refine equips_iff.mpr ⟨stage, CreateDevicePc.lasts_of_stage now, ?_⟩
                rw [here]
                simp only [Frame.creation, inside, GetPc.stage, now, Option.map_some]
              cases move <;> obtain rfl := Frame.get.inj frame <;> cases point <;> cases loaded
              all_goals first | exact old rfl | exact (equips_run before (equips rfl)).1
          | _ =>
              have move := getMove_of_exec exec
              rw [inside] at move
              cases move <;> cases point <;> cases loaded
      | _ => rw [here] at call; cases call

end TagExchange
