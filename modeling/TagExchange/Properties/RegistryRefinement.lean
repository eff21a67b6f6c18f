import TagExchange.Concurrency.Refinement
import TagExchange.Naming.Registry
import TagExchange.Properties.OwnerOnly

/-! The registry that the module keeps for its users: which service every tag stands for. All that the
system calls do to it is to enter a service, to condemn it and to clear its entry.
-/

namespace TagExchange

open Concurrency Naming Protocol

variable {τ : Type}

-----------------------------------------------------------------------------------------
-- The abstraction
-----------------------------------------------------------------------------------------

/-- What the registry knows of a service. -/
structure Registration where
  key : Int
  permission : Int
  owner : Int
deriving DecidableEq

/-- The users that may use a service. -/
def Registration.admits (s : Registration) (euid : Int) : Bool :=
  !(s.owner ≠ euid ∧ s.permission = ONLY_OWNER : Bool)

def TagService.registration (ts : TagService) : Registration :=
  ⟨ts.key, ts.permission, ts.ownerEuid⟩

theorem TagService.admits_registration (ts : TagService) (euid : Int)
    : ts.registration.admits euid = !ts.denies euid :=
  rfl

theorem Write.apply_registration (ts : TagService) (w : Write)
    : (w.apply ts).registration = ts.registration := by
  cases w <;> rfl

/-- The registry of tags, as a machine of its own. -/
abbrev tagRegistry : Machine (Int → Entry Registration) (Change Int Registration Int) :=
  registry Int Registration.admits

/-- The entry that a slot stands for. -/
def Kernel.entryOf (k : Kernel τ) : Option Ref → Entry Registration
  | none => .free
  | some s =>
      if (k.service s).lazyDeleted then .dying (k.service s).registration
      else .live (k.service s).registration

def State.entries (st : State τ) (i : Int) : Entry Registration :=
  st.kernel.entryOf (st.kernel.tsm.allTagServices i)

/-- The change of the registry that a call makes at each program point. -/
def Frame.change : Frame → Option (Change Int Registration Int)
  | get f =>
      match f.pc with
      | .publish => some (.enter f.tag ⟨storedKey f.key, f.permission, f.euid⟩)
      | _ => none
  | ctl f =>
      match f.pc with
      | .delete => some (.condemn f.tag f.euid)
      | .unlink => some (.clear f.tag)
      | _ => none
  | _ => none

def State.change (st : State τ) : Event τ → Option (Change Int Registration Int)
  | .run t _ => (st.thread t).frame.change
  | _ => none

theorem Kernel.entryOf_of_alive {k : Kernel τ} {s : Ref} (alive : (k.service s).lazyDeleted = false)
    : k.entryOf (some s) = .live (k.service s).registration := by
  simp only [Kernel.entryOf, alive, Bool.false_eq_true, if_false]

theorem Kernel.entryOf_of_doomed {k : Kernel τ} {s : Ref} (doomed : (k.service s).lazyDeleted = true)
    : k.entryOf (some s) = .dying (k.service s).registration := by
  simp only [Kernel.entryOf, doomed, if_true]

variable [DecidableEq τ] {h : History (State τ) (Event τ)} {st st' : State τ} {e : Event τ} {t : τ}
  {i : Int} {s : Ref}

-----------------------------------------------------------------------------------------
-- What a step leaves as it is
-----------------------------------------------------------------------------------------

/-- The key, the permission and the owner of a service never change. -/
theorem registration_of_step (step : st.step e = some st') (born : s < st.kernel.services)
    (kept : e.reuses ≠ some s)
    : (st'.kernel.service s).registration = (st.kernel.service s).registration :=
  field_of_step Write.apply_registration step born kept

/-- A registered service is marked as deleted only where a removal marks it. -/
theorem sameMark_of_step (step : st.step e = some st') (born : s < st.kernel.services)
    (kept : e.reuses ≠ some s)
    : (st'.kernel.service s).lazyDeleted = (st.kernel.service s).lazyDeleted
      ∨ (∃ u external,
          e = .run u external ∧ (st.thread u).frame.writes = some (s, .lazyDeleted)) := by
  rw [service_of_step step born kept]
  split
  · next r w writes =>
      split
      · next same =>
          subst same
          rcases writes_cases writes with ⟨u, external, rfl, here⟩ | ⟨n, b, -, -, here⟩
          · cases w <;> first | exact .inl rfl | exact .inr ⟨u, external, rfl, here⟩
          · refine .inl ?_
            obtain ⟨job, r, stage, caller⟩ := b
            cases job <;> cases stage <;> cases here
            all_goals rfl
      · exact .inl rfl
  · exact .inl rfl

omit [DecidableEq τ] in
/-- A removal marks its service where the registry condemns it. -/
theorem change_of_marks {frame : Frame} (marks : frame.writes = some (s, .lazyDeleted))
    : ∃ f, frame = .ctl f ∧ f.pc = .delete ∧ f.ts = s
      ∧ frame.change = some (.condemn f.tag f.euid) := by
  cases frame with
  | send f =>
      obtain ⟨tag, level, buffer, size, euid, realSize, stored, ts, pc⟩ := f
      cases pc <;> cases marks
  | receive f =>
      obtain ⟨tag, level, buffer, size, euid, ts, realSize, interrupted, copied, pc⟩ := f
      cases pc <;> cases marks
  | ctl f =>
      obtain ⟨tag, command, euid, ts, index, awakened, pc⟩ := f
      cases pc <;> cases marks
      exact ⟨_, rfl, rfl, rfl, rfl⟩
  | _ => cases marks

omit [DecidableEq τ] in
/-- A slot is stored into where the registry enters or clears, by cases on the program point. -/
theorem change_of_stores {c : CallId τ} {frame : Frame} {stored : Option Ref}
    (stores : (frame.op c).stores = some (i, stored))
    : (∃ f, frame = .get f ∧ f.pc = .publish ∧ f.tag = i ∧ stored = some f.ts)
      ∨ ∃ f, frame = .ctl f ∧ f.pc = .unlink ∧ f.tag = i ∧ stored = none := by
  rcases point_of_stores stores with
    ⟨key, command, permission, euid, r, rfl, rfl⟩ | ⟨command, euid, r, index, awakened, rfl, rfl⟩
  · exact .inl ⟨_, rfl, rfl, rfl, rfl⟩
  · exact .inr ⟨_, rfl, rfl, rfl, rfl⟩

/-- The slots after a step: the same, or one of them stored into by a call. -/
theorem slots_of_step (step : st.step e = some st')
    : st'.kernel.tsm.allTagServices = st.kernel.tsm.allTagServices
      ∨ ∃ u external i stored,
          e = .run u external
          ∧ (st.op u).stores = some (i, stored)
          ∧ st'.kernel.tsm.allTagServices = Function.update st.kernel.tsm.allTagServices i stored := by
  cases State.steps_of_step step with
  | @run u external k frame exec =>
      cases stores : (st.op u).stores with
      | none => exact .inl (Kernel.exec_unstored exec stores)
      | some stored =>
          obtain ⟨i, stored⟩ := stored
          exact .inr ⟨u, external, i, stored, rfl, stores, Kernel.exec_stores exec stores⟩
  | softirq ready exec => exact .inl (homes_of_callback exec).1
  | _ => exact .inl rfl

/-- A slot with the same service stands for the same entry, unless the step marks the service. -/
theorem entryOf_of_step (homes : Homes st) (step : st.step e = some st')
    (here : st.kernel.tsm.allTagServices i = some s)
    : st'.kernel.entryOf (some s) = st.kernel.entryOf (some s)
      ∨ ∃ u external,
          e = .run u external ∧ (st.thread u).frame.writes = some (s, .lazyDeleted) := by
  obtain ⟨born, unfreed⟩ := homes.slot here
  have kept := kept_of_unfreed step unfreed
  refine (sameMark_of_step step born kept).imp_left fun same => ?_
  simp only [Kernel.entryOf, same, registration_of_step step born kept]

/-- The entries of the slots that a step does not store into stay as they are, unless it marks their
service.
-/
theorem entries_of_step (homes : Homes st) (step : st.step e = some st')
    (slot : st'.kernel.tsm.allTagServices i = st.kernel.tsm.allTagServices i)
    : st'.entries i = st.entries i
      ∨ ∃ u external s,
          e = .run u external
          ∧ st.kernel.tsm.allTagServices i = some s
          ∧ (st.thread u).frame.writes = some (s, .lazyDeleted) := by
  rw [State.entries, State.entries, slot]
  cases here : st.kernel.tsm.allTagServices i with
  | none => exact .inl rfl
  | some s =>
      refine (entryOf_of_step homes step here).imp_right ?_
      rintro ⟨u, external, event, marks⟩
      exact ⟨u, external, s, event, rfl, marks⟩

-----------------------------------------------------------------------------------------
-- What a creation has filled in
-----------------------------------------------------------------------------------------

/-- A service that is about to be published is registered under the key, the permission and the user
of the call.
-/
theorem registration_run (run : (machine τ).Run Unheld h st)
    : ∀ {t f},
        (st.thread t).frame = .get f
        → f.pc = .publish
        → (st.kernel.service f.ts).registration = ⟨storedKey f.key, f.permission, f.euid⟩ := by
  refine run.invariant
    (P := fun _ st => ∀ {t f},
      (st.thread t).frame = .get f
      → f.pc = .publish
      → (st.kernel.service f.ts).registration = ⟨storedKey f.key, f.permission, f.euid⟩)
    (fun here => by cases here) ?_
  intro h st e st' before filled unheld step t f' after here
  cases turn_of_step step t with
  | rest _ thread =>
      rw [thread] at after
      have held : f'.ts ∈ (st.thread t).frame.pointers := by
        rw [after]
        simp [Frame.pointers, here]
      rw [registration_of_step step (pointers_born before t _ held) (unheld.kept_of_pointer held)]
      exact filled after here
  | @enter euid c event idle thread =>
      rw [thread] at after
      cases c <;> cases after
      cases here
  | @go external frame event exec thread =>
      rw [thread] at after
      obtain rfl : frame = .get f' := after
      have same := Kernel.exec_sameCall exec
      cases before_ : (st.thread t).frame with
      | get f =>
          rw [State.op, before_] at exec
          have move := getMove_of_exec exec
          obtain ⟨key, command, permission, euid, tag, ts, pc⟩ := f
          generalize target : Frame.get f' = frame at move
          cases move with
          | fields =>
              obtain rfl := Frame.get.inj target
              have service : st'.kernel.service
                  = Function.update st.kernel.service st.kernel.services
                      (TagService.created key tag permission euid) :=
                (Kernel.exec_allocates exec rfl).2.1
              show (st'.kernel.service st.kernel.services).registration = _
              rw [service, Function.update_self]
              rfl
          | leave => cases target
          | _ =>
              obtain rfl := Frame.get.inj target
              cases here
      | _ => rw [before_] at same; cases same

-----------------------------------------------------------------------------------------
-- The refinement
-----------------------------------------------------------------------------------------

/-- A creation publishes into a free entry. -/
theorem entries_of_publish (run : (machine τ).Run Unheld h st) {external : Nat} {f : GetFrame}
    (step : st.step (.run t external) = some st') (here : (st.thread t).frame = .get f)
    (point : f.pc = .publish)
    : st.entries f.tag = .free
      ∧ st'.entries
        = Function.update st.entries f.tag (.live ⟨storedKey f.key, f.permission, f.euid⟩) := by
  have fact := (Unheld.safe run).fact t
  simp only [State.view, here, Frame.view, GetFrame.view, point] at fact
  obtain ⟨⟨born, -⟩, unfreed, alive, empty, homeless⟩ := fact
  have stores : (st.op t).stores = some (f.tag, some f.ts) := by
    simp only [State.op, here, Frame.op, tagGet, point]
    rfl
  have slots : st'.kernel.tsm.allTagServices
      = Function.update st.kernel.tsm.allTagServices f.tag (some f.ts) := by
    cases State.steps_of_step step with
    | run exec => exact Kernel.exec_stores exec stores
  have free : st.entries f.tag = .free := by
    rw [State.entries, show st.kernel.tsm.allTagServices f.tag = none from empty]
    rfl
  have quiet {u external'} (event : Event.run t external = .run u external') {r : Ref}
      (marks : (st.thread u).frame.writes = some (r, .lazyDeleted)) : False := by
    cases event
    rw [here] at marks
    cases marks
  refine ⟨free, funext fun i => ?_⟩
  rcases eq_or_ne i f.tag with rfl | other
  · rw [Function.update_self, State.entries, slots, Function.update_self]
    have kept := kept_of_unfreed step unfreed
    have still : (st'.kernel.service f.ts).lazyDeleted = false := by
      rcases sameMark_of_step step born kept with same | ⟨u, external', event, marks⟩
      · exact same.trans alive
      · exact (quiet event marks).elim
    rw [Kernel.entryOf_of_alive still, registration_of_step step born kept,
      registration_run run here point]
  · rw [Function.update_of_ne other]
    have slot : st'.kernel.tsm.allTagServices i = st.kernel.tsm.allTagServices i := by
      rw [slots, Function.update_of_ne other]
    rcases entries_of_step (homes_run run) step slot with same | ⟨u, external', r, event, -, marks⟩
    · exact same
    · exact (quiet event marks).elim

/-- A removal condemns a service in use, in the name of a user who may use it. -/
theorem entries_of_delete (run : (machine τ).Run Unheld h st) {external : Nat} {f : CtlFrame}
    (step : st.step (.run t external) = some st') (here : (st.thread t).frame = .ctl f)
    (point : f.pc = .delete)
    : ∃ s : Registration,
        st.entries f.tag = .live s
        ∧ s.admits f.euid = true
        ∧ st'.entries = Function.update st.entries f.tag (.dying s) := by
  have view : st.view t = .inside f.ts f.tag := by
    have fact := (Unheld.safe run).fact t
    simp only [State.view, here, Frame.view, CtlFrame.view, point] at fact ⊢
    split
    · simp only [CtlFrame.place, point]
    · next other =>
        rw [if_neg other] at fact
        exact fact.elim
  have fact := (Unheld.safe run).fact t
  rw [view] at fact
  have slot : st.kernel.tsm.allTagServices f.tag = some f.ts := fact.1
  have alive : (st.kernel.service f.ts).lazyDeleted = false := fact.2
  have granted : (st.thread t).frame.granted = some (f.ts, f.euid) := by
    simp only [here, Frame.granted, point]
  have allowed := (rightful_run run t).granted granted
  have homes := homes_run run
  obtain ⟨born, unfreed⟩ := homes.slot slot
  have kept := kept_of_unfreed step unfreed
  have unstored : (st.op t).stores = none := by
    simp only [State.op, here, Frame.op, tagCtl, point]
    rfl
  have slots : st'.kernel.tsm.allTagServices = st.kernel.tsm.allTagServices := by
    cases State.steps_of_step step with
    | run exec => exact Kernel.exec_unstored exec unstored
  have writes : st.writes (.run t external) = some (f.ts, .lazyDeleted) := by
    simp only [State.writes, here, Frame.writes, point]
  refine ⟨(st.kernel.service f.ts).registration, ?_, ?_, funext fun i => ?_⟩
  · rw [State.entries, slot, Kernel.entryOf_of_alive alive]
  · rw [TagService.admits_registration, allowed]
    rfl
  · rcases eq_or_ne i f.tag with rfl | other
    · have marked : (st'.kernel.service f.ts).lazyDeleted = true := by
        rw [service_of_step step born kept, writes]
        simp only [if_true]
        rfl
      rw [Function.update_self, State.entries, slots, slot, Kernel.entryOf_of_doomed marked,
        registration_of_step step born kept]
    · rw [Function.update_of_ne other]
      rcases entries_of_step homes step (congrFun slots i) with
        same | ⟨u, external', r, event, there, marks⟩
      · exact same
      · cases event
        obtain ⟨g, same, -, rfl, -⟩ := change_of_marks marks
        obtain rfl := Frame.ctl.inj (here.symm.trans same)
        exact absurd (homes.unique there slot) other

/-- A removal clears the entry that it has condemned. -/
theorem entries_of_unlink (run : (machine τ).Run Unheld h st) {external : Nat} {f : CtlFrame}
    (step : st.step (.run t external) = some st') (here : (st.thread t).frame = .ctl f)
    (point : f.pc = .unlink)
    : ∃ s, st.entries f.tag = .dying s
        ∧ st'.entries = Function.update st.entries f.tag .free := by
  have fact := (Unheld.safe run).fact t
  simp only [State.view, here, Frame.view, CtlFrame.view, CtlFrame.place, point] at fact
  have slot : st.kernel.tsm.allTagServices f.tag = some f.ts := fact.1
  have doomed : (st.kernel.service f.ts).lazyDeleted = true := fact.2
  have stores : (st.op t).stores = some (f.tag, none) := by
    simp only [State.op, here, Frame.op, tagCtl, point]
    rfl
  have slots : st'.kernel.tsm.allTagServices
      = Function.update st.kernel.tsm.allTagServices f.tag none := by
    cases State.steps_of_step step with
    | run exec => exact Kernel.exec_stores exec stores
  refine ⟨(st.kernel.service f.ts).registration, ?_, funext fun i => ?_⟩
  · rw [State.entries, slot, Kernel.entryOf_of_doomed doomed]
  · rcases eq_or_ne i f.tag with rfl | other
    · rw [Function.update_self, State.entries, slots, Function.update_self]
      rfl
    · rw [Function.update_of_ne other]
      have still : st'.kernel.tsm.allTagServices i = st.kernel.tsm.allTagServices i := by
        rw [slots, Function.update_of_ne other]
      rcases entries_of_step (homes_run run) step still with same | ⟨u, external', r, event, -, marks⟩
      · exact same
      · cases event
        obtain ⟨g, same, marking, -⟩ := change_of_marks marks
        obtain rfl := Frame.ctl.inj (here.symm.trans same)
        cases point.symm.trans marking

/-- Every step changes the registry of tags as the registry allows, or leaves it alone: services enter
free entries, only users who may use a service condemn it, and only condemned ones are cleared.
-/
theorem refines_registry
    : Refines (machine τ) Unheld tagRegistry State.entries State.change where
  start := rfl
  unseen {h st e st'} run _ step unseen := by
    have step : st.step e = some st' := step
    have slots : st'.kernel.tsm.allTagServices = st.kernel.tsm.allTagServices := by
      rcases slots_of_step step with same | ⟨u, external, i, stored, rfl, stores, -⟩
      · exact same
      · rcases change_of_stores stores with ⟨f, here, point, -⟩ | ⟨f, here, point, -⟩
        all_goals simp [State.change, here, Frame.change, point] at unseen
    funext i
    rcases entries_of_step (homes_run run) step (congrFun slots i) with
      same | ⟨u, external, s, rfl, -, marks⟩
    · exact same
    · obtain ⟨f, here, point, -⟩ := change_of_marks marks
      simp [State.change, here, Frame.change, point] at unseen
  sees {h st e st' c} run _ step sees := by
    have step : st.step e = some st' := step
    cases e with
    | run t external =>
        cases here : (st.thread t).frame with
        | get f =>
            simp only [State.change, here, Frame.change] at sees
            split at sees
            · next point =>
                obtain rfl := Option.some.inj sees
                obtain ⟨free, after⟩ := entries_of_publish run step here point
                rw [after]
                exact change_enter Registration.admits free
            · cases sees
        | ctl f =>
            simp only [State.change, here, Frame.change] at sees
            split at sees
            · next point =>
                obtain rfl := Option.some.inj sees
                obtain ⟨s, live, admitted, after⟩ := entries_of_delete run step here point
                rw [after]
                exact change_condemn live admitted
            · next point =>
                obtain rfl := Option.some.inj sees
                obtain ⟨s, dying, after⟩ := entries_of_unlink run step here point
                rw [after]
                exact change_clear Registration.admits dying
            · cases sees
        | _ => simp [State.change, here, Frame.change] at sees
    | _ => cases sees

end TagExchange
