import TagExchange.Concurrency.Past
import TagExchange.Properties.Creations

/-! When the text of a registered service is there for the receivers that rewrite it. -/

namespace TagExchange

open Concurrency Protocol

variable {τ : Type}

-----------------------------------------------------------------------------------------
-- Texts and their makers
-----------------------------------------------------------------------------------------

/-- `content[i]` points to a written text that has not been freed. -/
def DevManager.Intact (dm : DevManager) (i : Int) : Prop :=
  ∃ text, dm.page i = some ⟨some text, false⟩

/-- The device whose text a removal is about to free, and its service. -/
def Frame.fells : Frame → Option (Int × Ref)
  | ctl f =>
      match f.pc with
      | .destroy .content => some (f.index, f.ts)
      | _ => none
  | _ => none

/-- The service whose text a removal has freed and that is still in its slot. -/
def Frame.felled : Frame → Option Ref
  | ctl f =>
      match f.pc with
      | .destroy .unlock | .unlink => some f.ts
      | _ => none
  | _ => none

/-- The text that a receiver is about to point `content` to. -/
def Frame.assigns : Frame → Option (Int × Text)
  | receive f =>
      match f.pc.update with
      | some (.assign i text) => some (i, text)
      | _ => none
  | _ => none

/-- The device whose mutex a receiver is about to take. -/
def Frame.updates : Frame → Option Int
  | receive f =>
      match f.pc.update with
      | some (.lock i _) => some i
      | _ => none
  | _ => none

/-- A creation allocates the text of a service. -/
def Builds (i : Int) (s : Ref) : Guard (State τ) (Event τ) :=
  fun _ st e =>
    ∃ t external, e = .run t external ∧ (st.thread t).frame.erects = some (i, some s)

/-- No creation and no removal touches the text. -/
def NoRenewal (i : Int) : Guard (State τ) (Event τ) :=
  fun _ st e =>
    ∀ t external,
      e = .run t external
      → (∀ ts, (st.thread t).frame.erects ≠ some (i, ts))
        ∧ ∀ r, (st.thread t).frame.fells ≠ some (i, r)

/-- The text of the device is the one that the creation of the service has made, as receivers
have rewritten it since.
-/
abbrev BuiltFor (i : Int) (s : Ref) : History (State τ) (Event τ) → Prop :=
  Since (NoRenewal i) (Builds i s)

/-- The slot holds a service whose creation has made the device, and no removal has freed its
text.
-/
def State.Equipped (st : State τ) (i : Int) : Prop :=
  ∃ s,
    st.kernel.tsm.allTagServices i = some s
    ∧ (∀ t, (st.thread t).frame.equips ≠ some (i, s))
    ∧ ∀ t, (st.thread t).frame.felled ≠ some s

variable [DecidableEq τ]

/-- Receivers take the mutex of a device only while its slot holds an equipped service. -/
def KeepsDevices : Guard (State τ) (Event τ) :=
  fun h st e =>
    MakesDevices h st e
    ∧ ∀ t external i,
        e = .run t external → (st.thread t).frame.updates = some i → st.Equipped i

variable {h : History (State τ) (Event τ)} {st st' : State τ} {e : Event τ} {t u : τ}
  {i j : Int} {s : Ref}

theorem KeepsDevices.makes (run : (machine τ).Run KeepsDevices h st)
    : (machine τ).Run MakesDevices h st :=
  run.mono fun _ _ _ ok => ok.1

theorem KeepsDevices.unheld (run : (machine τ).Run KeepsDevices h st)
    : (machine τ).Run Unheld h st :=
  MakesDevices.unheld (KeepsDevices.makes run)

/-- The accesses that change the text of a device. -/
inductive TextAccess (frame : Frame) (i : Int) : DeviceAccess → Prop
  | erect {ts : Option Ref} (erects : frame.erects = some (i, ts)) : TextAccess frame i (.newText i)
  | clear (lost : frame.device = some (.clearText i)) : TextAccess frame i (.clearText i)
  | write {s : Ref} {text : Text} (filling : frame.creation = some (.filling, i, s))
    : TextAccess frame i (.writeText i text)
  | fell {s : Ref} (fells : frame.fells = some (i, s)) : TextAccess frame i (.freeText i)
  | free {f text} (here : frame = .receive f) (point : f.pc.update = some (.free i text))
    : TextAccess frame i (.freeText i)
  | assign {text} (assigns : frame.assigns = some (i, text))
    : TextAccess frame i (.storeText i text)

omit [DecidableEq τ] in
/-- These are all of them, by cases on the program point. -/
theorem textAccess_of_device {frame : Frame} {access : DeviceAccess}
    (device : frame.device = some access) (texts : access.texts = some i)
    : TextAccess frame i access := by
  cases frame with
  | get f =>
      obtain ⟨key, command, permission, euid, tag, ts, pc⟩ := f
      cases pc
      case device pc =>
        cases pc <;> cases device <;> cases texts
        · exact .erect rfl
        · exact .clear rfl
        · exact .write (s := ts) rfl
      all_goals cases device
  | receive f =>
      simp only [Frame.device] at device
      cases within : f.pc.update with
      | none => rw [within] at device; cases device
      | some pc =>
          rw [within] at device
          cases pc <;> cases device <;> cases texts
          · exact .free rfl within
          · exact .assign (by simp only [Frame.assigns, within])
  | ctl f =>
      obtain ⟨tag, command, euid, ts, index, awakened, pc⟩ := f
      cases pc
      case destroy pc =>
        cases pc <;> cases device <;> cases texts
        exact .fell rfl
      all_goals cases device
  | _ => cases device

omit [DecidableEq τ] in
theorem device_of_erects {frame : Frame} {ts : Option Ref} (erects : frame.erects = some (i, ts))
    : frame.device = some (.newText i) := by
  cases frame with
  | get f =>
      obtain ⟨key, command, permission, euid, tag, s, pc⟩ := f
      cases pc
      case device pc => cases pc <;> cases erects; rfl
      all_goals cases erects
  | _ => cases erects

omit [DecidableEq τ] in
theorem device_of_assigns {frame : Frame} {text : Text} (assigns : frame.assigns = some (i, text))
    : frame.device = some (.storeText i text) ∧ frame.idle = false := by
  cases frame with
  | receive f =>
      refine ⟨?_, rfl⟩
      simp only [Frame.assigns] at assigns
      split at assigns
      · next point =>
          cases assigns
          simp only [Frame.device, point]
          rfl
      · cases assigns
  | _ => cases assigns

omit [DecidableEq τ] in
theorem device_of_fells {frame : Frame} (fells : frame.fells = some (i, s))
    : frame.device = some (.freeText i) := by
  cases frame with
  | ctl f =>
      obtain ⟨tag, command, euid, ts, index, awakened, pc⟩ := f
      cases pc
      case destroy pc => cases pc <;> cases fells; rfl
      all_goals cases fells
  | _ => cases fells

omit [DecidableEq τ] in
theorem felled_of_unlinks {frame : Frame} (unlinks : frame.unlinks = some (i, s))
    : frame.felled = some s := by
  cases frame with
  | ctl f =>
      obtain ⟨tag, command, euid, ts, index, awakened, pc⟩ := f
      cases pc <;> cases unlinks
      rfl
  | _ => cases unlinks

/-- A creation builds the text of its own service. -/
theorem building_of_erects (run : (machine τ).Run MakesDevices h st) {ts : Option Ref}
    (erects : (st.thread t).frame.erects = some (i, ts))
    : ∃ s, (st.thread t).frame.creation = some (.building, i, s) ∧ ts = some s := by
  have loaded (f pc ts)
      : (st.thread t).frame = .get f → f.pc = .device pc → pc.loaded = some ts → ts = some f.ts :=
    loaded_run run
  cases here : (st.thread t).frame with
  | get f =>
      obtain ⟨key, command, permission, euid, tag, s, pc⟩ := f
      rw [here] at erects loaded
      cases pc
      case device pc =>
        cases pc <;> cases erects
        exact ⟨s, rfl, loaded _ _ ts rfl rfl rfl⟩
      all_goals cases erects
  | _ => rw [here] at erects; cases erects

-----------------------------------------------------------------------------------------
-- Removals
-----------------------------------------------------------------------------------------

/-- A removal destroys the device of its own tag, by cases on the moves. -/
theorem indexed_removal_run (run : (machine τ).Run Unheld h st)
    : ∀ {t f pc}, (st.thread t).frame = .ctl f → f.pc = .destroy pc → f.index = f.tag := by
  refine run.invariant
    (P := fun _ st => ∀ {t f pc},
      (st.thread t).frame = .ctl f → f.pc = .destroy pc → f.index = f.tag)
    (fun here => by cases here) ?_
  intro h st e st' before indexed ok step t f' pc' after point
  have step : st.step e = some st' := step
  cases ctlTurn_of_step step after with
  | rest _ thread => exact indexed (thread ▸ after) point
  | enter calls entered =>
      rename_i euid c
      cases c <;> cases entered
      cases point
  | @move external f pc frame event here calls at_ move target =>
      have fact := (Unheld.safe before).fact t
      simp only [State.view] at fact
      rw [here] at fact
      have old {pc} : f.pc = .destroy pc → f.index = f.tag := indexed here
      obtain ⟨tag, command, euid, ts, index, awakened, pc⟩ := f
      obtain rfl := at_
      cases move <;> cases target <;> cases point
      · have slot : st.kernel.tsm.allTagServices tag = some ts := fact.1
        exact ((Unheld.safe before).slots slot).1.2.1
      · exact old rfl

/-- A removal frees the text of a service that is still in the slot. -/
theorem slot_of_fells (run : (machine τ).Run Unheld h st)
    (fells : (st.thread t).frame.fells = some (i, s))
    : st.kernel.tsm.allTagServices i = some s := by
  have fact := (Unheld.safe run).fact t
  have indexed (f pc) : (st.thread t).frame = .ctl f → f.pc = .destroy pc → f.index = f.tag :=
    indexed_removal_run run
  simp only [State.view] at fact
  cases here : (st.thread t).frame with
  | ctl f =>
      obtain ⟨tag, command, euid, ts, index, awakened, pc⟩ := f
      rw [here] at fells fact indexed
      cases pc
      case destroy pc =>
        have same : index = tag := indexed _ pc rfl rfl
        subst same
        cases pc <;> cases fells
        exact fact.1
      all_goals cases fells
  | _ => rw [here] at fells; cases fells

/-- A service whose text has been freed is marked as deleted. -/
theorem doomed_of_felled (run : (machine τ).Run Unheld h st)
    (felled : (st.thread t).frame.felled = some s)
    : (st.kernel.service s).lazyDeleted = true := by
  have fact := (Unheld.safe run).fact t
  simp only [State.view] at fact
  cases here : (st.thread t).frame with
  | ctl f =>
      obtain ⟨tag, command, euid, ts, index, awakened, pc⟩ := f
      rw [here] at felled fact
      cases pc
      case destroy pc =>
        cases pc <;> cases felled
        exact fact.2
      all_goals cases felled
      exact fact.2
  | _ => rw [here] at felled; cases felled

/-- A step of a removal: from the moment it frees the text, until it empties the slot. -/
structure FellingTurn (before after : Frame) : Prop where
  stays
    : ∀ s,
        before.felled = some s → after.felled = some s ∨ ∃ i, before.unlinks = some (i, s)
  fells : ∀ i s, before.fells = some (i, s) → after.felled = some s
  back
    : ∀ s, after.felled = some s → before.felled = some s ∨ ∃ i, before.fells = some (i, s)

/-- Every step of a call is one, by cases on the moves of a removal. -/
theorem fellingTurn_of_exec {k k' : Kernel τ} {external : Nat} {c : CallId τ}
    {before after : Frame} (exec : k.exec external (before.op c) = some (k', after))
    : FellingTurn before after := by
  have same := Kernel.exec_sameCall exec
  cases before with
  | ctl f =>
      change k.exec external (tagCtl c f) = _ at exec
      have move := ctlMove_of_exec exec
      obtain ⟨tag, command, euid, ts, index, awakened, pc⟩ := f
      cases pc
      case destroy pc =>
        obtain ⟨next, inner, rfl⟩ := destroyed_of_exec rfl exec
        cases inner with
        | lock =>
            exact ⟨(fun s now => by cases now), (fun i s now => by cases now),
              fun s now => by cases now⟩
        | node =>
            exact ⟨(fun s now => by cases now), (fun i s now => by cases now),
              fun s now => by cases now⟩
        | content =>
            refine ⟨(fun s now => by cases now), fun i s now => ?_, fun s now => ?_⟩
            · cases now
              rfl
            · cases now
              exact .inr ⟨index, rfl⟩
        | unlock => exact ⟨fun s now => .inl now, (fun i s now => by cases now), fun s => .inl⟩
      case unlink =>
        cases move
        refine ⟨fun s now => ?_, (fun i s now => by cases now), fun s now => by cases now⟩
        cases now
        exact .inr ⟨tag, rfl⟩
      all_goals
        refine ⟨(fun s now => by cases now), (fun i s now => by cases now), fun s now => ?_⟩
        cases move <;> cases now
  | user last => cases exec
  | _ =>
      refine ⟨(fun s now => by cases now), (fun i s now => by cases now), fun s now => ?_⟩
      cases after <;> first | cases now | cases same

/-- A removal that takes a service out leaves the slot empty. -/
theorem empty_of_unlinks {external : Nat} (step : st.step (.run t external) = some st')
    (unlinks : (st.thread t).frame.unlinks = some (i, s))
    : st'.kernel.tsm.allTagServices i = none := by
  cases State.steps_of_step step with
  | @run t external k frame exec =>
      cases here : (st.thread t).frame with
      | ctl f =>
          obtain ⟨tag, command, euid, ts, index, awakened, pc⟩ := f
          rw [here] at unlinks
          rw [State.op, here] at exec
          cases pc <;> cases unlinks
          obtain ⟨rfl, rfl⟩ := Prod.mk.inj (Option.some.inj exec)
          exact Function.update_self ..
      | _ => rw [here] at unlinks; cases unlinks

-----------------------------------------------------------------------------------------
-- The text
-----------------------------------------------------------------------------------------

/-- A step leaves the text of a device as it is, or it is one of the accesses to it. -/
theorem page_of_step (separate : st.kernel.dm.Separate) (step : st.step e = some st') (i : Int)
    : st'.kernel.dm.page i = st.kernel.dm.page i
      ∨ ∃ t external access,
          e = .run t external
          ∧ (st.thread t).frame.device = some access
          ∧ TextAccess (st.thread t).frame i access := by
  rw [dm_of_step step]
  cases device : st.device e with
  | none => exact .inl rfl
  | some access =>
      dsimp only
      by_cases texts : access.texts = some i
      · cases e with
        | run t external =>
            exact .inr ⟨t, external, access, rfl, device, textAccess_of_device device texts⟩
        | _ => cases device
      · refine .inl ?_
        rw [DevManager.page_access separate]
        cases access <;> first | rfl | exact if_neg fun same => texts (congrArg some same.symm)

/-- The text of the device after the step that touches it. -/
theorem page_of_access {external : Nat} {access : DeviceAccess}
    (step : st.step (.run t external) = some st')
    (device : (st.thread t).frame.device = some access)
    : st'.kernel.dm.page i = (st.kernel.dm.access access).page i := by
  rw [dm_of_step step]
  simp only [State.device, device]

omit [DecidableEq τ] in
theorem deviceHolds_of_filling {frame : Frame} (filling : frame.creation = some (.filling, i, s))
    : frame.deviceHolds = some i := by
  cases frame with
  | get f =>
      obtain ⟨key, command, permission, euid, tag, ts, pc⟩ := f
      cases pc
      case device pc => cases pc <;> cases filling <;> rfl
      all_goals cases filling
  | _ => cases filling

/-- The text that a creation is writing has not been freed, as it owns the mutex. -/
theorem page_run (run : (machine τ).Run KeepsDevices h st)
    : ∀ {t i s},
        (st.thread t).frame.creation = some (.filling, i, s)
        → ∃ text, st.kernel.dm.page i = some ⟨text, false⟩ := by
  refine run.invariant
    (P := fun _ st => ∀ {t i s},
      (st.thread t).frame.creation = some (.filling, i, s)
      → ∃ text, st.kernel.dm.page i = some ⟨text, false⟩)
    (fun here => by cases here) ?_
  intro h st e st' before page ok step t i s after
  have step : st.step e = some st' := step
  have separate := separate_run before
  -- The text is untouched while the creation itself does not write to it.
  have untouched (filling : (st.thread t).frame.creation = some (.filling, i, s))
      (quiet
        : ∀ external access,
            e = .run t external
            → (st.thread t).frame.device = some access
            → access.texts = none)
      : ∃ text, st'.kernel.dm.page i = some ⟨text, false⟩ := by
    rcases page_of_step separate step i with same | ⟨u, external, access, rfl, device, touches⟩
    · rw [same]
      exact page filling
    · have texts : access.texts = some i := by cases touches <;> rfl
      have owner := deviceHolds_of_texts (KeepsDevices.unheld before) device texts
      have mine := deviceHolds_of_filling filling
      obtain rfl := (exclusive_run (KeepsDevices.unheld before)).one mine owner
      cases texts.symm.trans (quiet external access rfl device)
  rcases creationTurn_of_step ok.1 step t with ⟨same, other⟩ | ⟨⟨external, rfl⟩, turn⟩
  · exact untouched (same ▸ after) fun external access now => absurd now (other external)
  · rw [after] at turn
    generalize here : (st.thread t).frame.creation = creation at turn
    cases turn with
    | keep _ unchanged => exact untouched here fun _ access _ => unchanged access
    | content erects =>
        have page := page_of_access (i := i) step (device_of_erects erects)
        rw [DevManager.page_access separate] at page
        exact ⟨none, page.trans (if_pos rfl)⟩

-----------------------------------------------------------------------------------------
-- Equipped slots
-----------------------------------------------------------------------------------------

/-- What a step does to the removal that a thread is in. -/
theorem fellingTurn_of_step (step : st.step e = some st') (t : τ)
    : ((st'.thread t).frame.felled = (st.thread t).frame.felled
        ∧ ∀ external, e ≠ .run t external)
      ∨ ((∃ external, e = .run t external)
        ∧ FellingTurn (st.thread t).frame (st'.thread t).frame) := by
  cases turn_of_step step t with
  | rest other thread => exact .inl ⟨by rw [thread], other⟩
  | @enter euid c event idle thread =>
      obtain ⟨last, user⟩ := Frame.eq_user_of_idle idle
      refine .inl ⟨?_, fun external same => by cases event.symm.trans same⟩
      rw [thread, user]
      cases c <;> rfl
  | @go external frame event exec thread =>
      refine .inr ⟨⟨external, event⟩, ?_⟩
      rw [thread]
      exact fellingTurn_of_exec exec

/-- An equipped slot stays equipped until a removal frees the text. -/
theorem equipped_of_step (before : (machine τ).Run KeepsDevices h st) (ok : KeepsDevices h st e)
    (step : st.step e = some st')
    (kept : ∀ u external r, e = .run u external → (st.thread u).frame.fells ≠ some (i, r))
    (equipped : st.Equipped i)
    : st'.Equipped i := by
  obtain ⟨s, slot, made, unfelled⟩ := equipped
  have x := Unheld.safe (KeepsDevices.unheld before)
  refine ⟨s, ?_, fun u equips => ?_, fun u felled => ?_⟩
  · refine (slot_unless_unlinked x step slot).resolve_right ?_
    rintro ⟨u, external, rfl, unlinks, -⟩
    exact unfelled u (felled_of_unlinks unlinks)
  · obtain ⟨stage, lasts, now⟩ := equips_iff.mp equips
    rcases creationTurn_of_step ok.1 step u with ⟨same, -⟩ | ⟨-, turn⟩
    · exact made u (equips_iff.mpr ⟨stage, lasts, same ▸ now⟩)
    · rw [now] at turn
      generalize here : (st.thread u).frame.creation = creation at turn
      cases turn with
      | publish => cases slot.symm.trans (fresh_of_publishing x here).1
      | keep lasts _ => exact made u (equips_iff.mpr ⟨_, lasts, here⟩)
      | content _ => exact made u (equips_iff.mpr ⟨_, .inl rfl, here⟩)
      | write _ => exact made u (equips_iff.mpr ⟨_, .inr (.inl rfl), here⟩)
      | _ => rcases lasts with same | same | same <;> cases same
  · rcases fellingTurn_of_step step u with ⟨same, -⟩ | ⟨⟨external, event⟩, turn⟩
    · exact unfelled u (same ▸ felled)
    · rcases turn.back s felled with old | ⟨j, fells⟩
      · exact unfelled u old
      · have slot' := slot_of_fells (KeepsDevices.unheld before) fells
        obtain rfl := (homes_run before).unique slot slot'
        exact kept u external s event fells

/-- While a receiver reads the text of a device, the slot is equipped: it owns the mutex, so no
removal frees the text.
-/
theorem equipped_run (run : (machine τ).Run KeepsDevices h st)
    : ∀ {t f i n},
        (st.thread t).frame = .receive f → f.pc.update = some (.read i n) → st.Equipped i := by
  refine run.invariant
    (P := fun _ st => ∀ {t f i n},
      (st.thread t).frame = .receive f → f.pc.update = some (.read i n) → st.Equipped i)
    (fun here => by cases here) ?_
  intro h st e st' before equipped ok step t f' i n after point
  have step : st.step e = some st' := step
  have unheld := KeepsDevices.unheld before
  cases turn_of_step step t with
  | rest other thread =>
      rw [thread] at after
      refine equipped_of_step before ok step (fun u external r event fells => ?_)
        (equipped after point)
      have owner : (st.thread u).frame.deviceHolds = some i :=
        deviceHolds_of_texts unheld (device_of_fells fells) rfl
      have mine : (st.thread t).frame.deviceHolds = some i := by
        have index : i = f'.tag := indexed_run unheld after point
        rw [after]
        simp only [Frame.deviceHolds, point, index]
        rfl
      obtain rfl := (exclusive_run unheld).one mine owner
      exact other external event
  | @enter euid c event idle thread =>
      rw [thread] at after
      cases c <;> cases after
      cases point
  | @go external frame event exec thread =>
      rw [thread] at after
      obtain rfl : frame = .receive f' := after
      rcases update_of_exec exec point with check | ⟨f, pc, here, within, move, -, -⟩
      · cases check
      · have quiet u external' r (event' : e = .run u external')
            (fells : (st.thread u).frame.fells = some (i, r))
            : False := by
          obtain rfl := (Event.run.inj (event.symm.trans event')).1
          rw [here] at fells
          cases fells
        cases move
        refine equipped_of_step before ok step quiet (ok.2 t external i event ?_)
        rw [here]
        simp only [Frame.updates, within]

-----------------------------------------------------------------------------------------
-- Where the text of a service is
-----------------------------------------------------------------------------------------

/-- The text of the device is there, or somebody is about to write it. -/
inductive State.Texted (st : State τ) (i : Int) (s : Ref) : Prop
  | intact (text : st.kernel.dm.Intact i)
  | assigning {t : τ} {text : Text} (assigns : (st.thread t).frame.assigns = some (i, text))
  | filling {t : τ} (filling : (st.thread t).frame.creation = some (.filling, i, s))

/-- What has become of the text of a registered service. -/
inductive Stands (h : History (State τ) (Event τ)) (st : State τ) (i : Int) (s : Ref) : Prop
  | awaited {t : τ} (building : (st.thread t).frame.creation = some (.building, i, s))
  | felled {t : τ} (felled : (st.thread t).frame.felled = some s)
  | built (built : BuiltFor i s h) (texted : st.Texted i s)

theorem thread_of_other (step : st.step e = some st') (other : ∀ external, e ≠ .run t external)
    (busy : (st.thread t).frame.idle = false)
    : st'.thread t = st.thread t := by
  cases turn_of_step step t with
  | rest _ thread => exact thread
  | enter _ idle _ => cases busy.symm.trans idle
  | go event _ _ => exact absurd event (other _)

/-- The step of a receiver that frees the old text leaves it about to assign the new one. -/
theorem assigns_of_free {external : Nat} {f : ReceiveFrame} {text : Text}
    (step : st.step (.run t external) = some st') (here : (st.thread t).frame = .receive f)
    (point : f.pc.update = some (.free i text))
    : (st'.thread t).frame.assigns = some (i, text) := by
  cases turn_of_step step t with
  | rest other _ => exact absurd rfl (other external)
  | enter event _ _ => cases event
  | @go external frame event exec thread =>
      rw [State.op, here] at exec
      have exec : st.kernel.exec external (tagReceive t f) = _ := exec
      obtain ⟨f', next, rfl, move, -, -, -, update⟩ := updated_of_exec point exec
      rw [thread]
      cases move
      have update : f'.pc.update = some (.assign i text) := update
      simp only [Frame.assigns, update]

/-- As long as nobody makes or destroys the device, its text is there or about to be written, by
cases on who has it.
-/
theorem texted_of_step (before : (machine τ).Run KeepsDevices h st) (ok : KeepsDevices h st e)
    (step : st.step e = some st') (quiet : NoRenewal i h st e) (texted : st.Texted i s)
    : st'.Texted i s := by
  have separate := separate_run before
  have stored {t external text} (event : e = .run t external)
      (assigns : (st.thread t).frame.assigns = some (i, text))
      : st'.Texted i s := by
    subst event
    have page := page_of_access (i := i) step (device_of_assigns assigns).1
    rw [DevManager.page_access separate] at page
    exact .intact ⟨text, page.trans (if_pos rfl)⟩
  have written {t external r text} (event : e = .run t external)
      (filling : (st.thread t).frame.creation = some (.filling, i, r))
      (device : (st.thread t).frame.device = some (.writeText i text))
      : st'.Texted i s := by
    subst event
    obtain ⟨old, found⟩ := page_run before filling
    have page := page_of_access (i := i) step device
    rw [DevManager.page_access separate] at page
    simp only [if_true, found, Option.map_some] at page
    exact .intact ⟨text, page⟩
  cases texted with
  | intact text =>
      rcases page_of_step separate step i with same | ⟨u, external, access, rfl, device, touches⟩
      · obtain ⟨text, found⟩ := text
        exact .intact ⟨text, same.trans found⟩
      · cases touches with
        | erect erects => exact absurd erects ((quiet u external rfl).1 _)
        | clear lost => exact absurd lost (unlost_run (KeepsDevices.makes before))
        | fell fells => exact absurd fells ((quiet u external rfl).2 _)
        | write filling => exact written rfl filling device
        | assign assigns => exact stored rfl assigns
        | free here point => exact .assigning (assigns_of_free step here point)
  | @assigning t text assigns =>
      by_cases own : ∃ external, e = .run t external
      · obtain ⟨external, event⟩ := own
        exact stored event assigns
      · have thread := thread_of_other step (not_exists.mp own) (device_of_assigns assigns).2
        exact .assigning (thread ▸ assigns)
  | @filling t filling =>
      rcases creationTurn_of_step ok.1 step t with ⟨same, -⟩ | ⟨⟨external, event⟩, turn⟩
      · exact .filling (same.trans filling)
      · rw [filling] at turn
        generalize now : (st'.thread t).frame.creation = creation at turn
        cases turn with
        | keep _ _ => exact .filling now
        | write device => exact written event filling device

/-- A creation that builds the text of its service goes on to fill it. -/
theorem filling_of_erects {external : Nat} (ok : MakesDevices h st (.run t external))
    (step : st.step (.run t external) = some st')
    {ts : Option Ref} (erects : (st.thread t).frame.erects = some (i, ts))
    (building : (st.thread t).frame.creation = some (.building, i, s))
    : (st'.thread t).frame.creation = some (.filling, i, s) := by
  rcases creationTurn_of_step ok step t with ⟨-, other⟩ | ⟨-, turn⟩
  · exact absurd rfl (other external)
  · rw [building] at turn
    generalize now : (st'.thread t).frame.creation = creation at turn
    cases turn with
    | content _ => rfl
    | keep _ unchanged => cases unchanged _ (device_of_erects erects)

/-- A creation that has published its service goes on to build its device. -/
theorem building_of_publishing {external : Nat} (ok : MakesDevices h st (.run t external))
    (step : st.step (.run t external) = some st')
    (publishing : (st.thread t).frame.creation = some (.publishing, i, s))
    : (st'.thread t).frame.creation = some (.building, i, s) := by
  rcases creationTurn_of_step ok step t with ⟨-, other⟩ | ⟨-, turn⟩
  · exact absurd rfl (other external)
  · rw [publishing] at turn
    generalize now : (st'.thread t).frame.creation = creation at turn
    cases turn with
    | publish => rfl
    | keep lasts _ => rcases lasts with same | same | same <;> cases same

/-- A registered service waits for its device, has lost it, or has it, by cases on what has
become of it so far.
-/
theorem stands_run (run : (machine τ).Run KeepsDevices h st)
    : ∀ {i s}, st.kernel.tsm.allTagServices i = some s → Stands h st i s := by
  refine run.invariant
    (P := fun h st => ∀ {i s}, st.kernel.tsm.allTagServices i = some s → Stands h st i s)
    (fun here => by cases here) ?_
  intro h st e st' before stands ok step i s after
  have step : st.step e = some st' := step
  have makes := KeepsDevices.makes before
  have unheld := KeepsDevices.unheld before
  have x := Unheld.safe unheld
  rcases slot_before_step step after with slot | ⟨t, external, rfl, publishing⟩
  · by_cases quiet : NoRenewal i h st e
    · cases stands slot with
      | @awaited t building =>
          rcases creationTurn_of_step ok.1 step t with ⟨same, -⟩ | ⟨⟨external, rfl⟩, turn⟩
          · exact .awaited (same.trans building)
          · rw [building] at turn
            generalize now : (st'.thread t).frame.creation = creation at turn
            cases turn with
            | keep _ _ => exact .awaited now
            | content erects => exact absurd erects ((quiet t external rfl).1 _)
      | @felled t felled =>
          rcases fellingTurn_of_step step t with ⟨same, -⟩ | ⟨⟨external, rfl⟩, turn⟩
          · exact .felled (same.trans felled)
          · rcases turn.stays s felled with stays | ⟨j, unlinks⟩
            · exact .felled stays
            · obtain rfl := (homes_run before).unique slot (doomed_of_unlinks x unlinks).1
              cases after.symm.trans (empty_of_unlinks step unlinks)
      | built built texted =>
          exact .built (.later built quiet) (texted_of_step before ok step quiet texted)
    · simp only [NoRenewal, not_forall, not_and_or, not_not, exists_prop] at quiet
      obtain ⟨t, external, rfl, ⟨ts, erects⟩ | ⟨r, fells⟩⟩ := quiet
      · -- The creation that builds a text is the one of the service in the slot.
        obtain ⟨r, building, rfl⟩ := building_of_erects makes erects
        have home := (equips_run makes (equips_iff.mpr ⟨_, .inl rfl, building⟩)).1
        obtain rfl := Option.some.inj (slot.symm.trans home)
        exact .built (.here ⟨t, external, rfl, erects⟩)
          (.filling (filling_of_erects ok.1 step erects building))
      · obtain rfl := Option.some.inj (slot.symm.trans (slot_of_fells unheld fells))
        rcases fellingTurn_of_step step t with ⟨-, other⟩ | ⟨-, turn⟩
        · exact absurd rfl (other external)
        · exact .felled (turn.fells i s fells)
  · exact .awaited (building_of_publishing ok.1 step publishing)

-----------------------------------------------------------------------------------------
-- The law
-----------------------------------------------------------------------------------------

/-- The text of a registered service is there for its receivers. -/
structure DeviceExists (h : History (State τ) (Event τ)) (st : State τ) : Prop where
  /-- A receiver that reads the text finds the one of the service in the slot. -/
  reads
    : ∀ {t f i n},
        (st.thread t).frame = .receive f
        → f.pc.update = some (.read i n)
        → ∃ s,
            st.kernel.tsm.allTagServices i = some s ∧ BuiltFor i s h ∧ st.kernel.dm.Intact i
  /-- A service whose creation has returned has its text until it is removed, or a receiver
  that has freed it is about to assign the next one.
  -/
  returned
    : ∀ {i s},
        Once (Completes i s) h
        → st.kernel.tsm.allTagServices i = some s
        → (st.kernel.service s).lazyDeleted = false
        → BuiltFor i s h
          ∧ (st.kernel.dm.Intact i ∨ ∃ t text, (st.thread t).frame.assigns = some (i, text))

/-- In every run in which devices are made and nobody updates one that is not there, registered
services have their texts.
-/
theorem device_exists (run : (machine τ).Run KeepsDevices h st) : DeviceExists h st where
  reads {t f i n} here point := by
    have unheld := KeepsDevices.unheld run
    obtain ⟨s, slot, made, unfelled⟩ := equipped_run run here point
    refine ⟨s, slot, ?_⟩
    cases stands_run run slot with
    | awaited building => exact absurd (equips_iff.mpr ⟨_, .inl rfl, building⟩) (made _)
    | felled felled => exact absurd felled (unfelled _)
    | built built texted =>
        refine ⟨built, ?_⟩
        cases texted with
        | intact text => exact text
        | filling filling =>
            exact absurd (equips_iff.mpr ⟨_, .inr (.inl rfl), filling⟩) (made _)
        | @assigning u text assigns =>
            -- Both own the mutex of the device.
            have owner : (st.thread u).frame.deviceHolds = some i :=
              deviceHolds_of_texts unheld (device_of_assigns assigns).1 rfl
            have mine : (st.thread t).frame.deviceHolds = some i := by
              have index : i = f.tag := indexed_run unheld here point
              rw [here]
              simp only [Frame.deviceHolds, point, index]
              rfl
            obtain rfl := (exclusive_run unheld).one mine owner
            rw [here] at assigns
            simp only [Frame.assigns, point] at assigns
            cases assigns
  returned {i s} once slot alive := by
    obtain ⟨-, nobody⟩ := completed_run (KeepsDevices.makes run) once
    cases stands_run run slot with
    | awaited building => exact absurd building (nobody _ _ _)
    | felled felled =>
        have doomed := doomed_of_felled (KeepsDevices.unheld run) felled
        exact absurd (alive.symm.trans doomed) (by decide)
    | built built texted =>
        refine ⟨built, ?_⟩
        cases texted with
        | intact text => exact .inl text
        | assigning assigns => exact .inr ⟨_, _, assigns⟩
        | filling filling => exact absurd filling (nobody _ _ _)

-----------------------------------------------------------------------------------------
-- Runs of two threads
-----------------------------------------------------------------------------------------

/-- The test that no service is marked, all devices are made, and receivers take the mutex of an
equipped slot.
-/
def keepsDevicesTest (st : State (Fin 2)) : Event (Fin 2) → Bool
  | .run t external =>
      (!(st.thread t).frame.addsDevice || external == 0)
      && (match (st.thread t).frame.writes with
        | some (_, .lazyDeleted) => false
        | _ => true)
      && (st.thread t).frame.updates.all fun i =>
        (st.kernel.tsm.allTagServices i).any fun s =>
          (List.finRange 2).all fun u =>
            (st.thread u).frame.equips != some (i, s) && (st.thread u).frame.felled != some s
  | .softirq _ => false
  | .reuse _ _ => false
  | _ => true

theorem keepsDevices_of_test {G : Guard (State (Fin 2)) (Event (Fin 2))}
    {h : History (State (Fin 2)) (Event (Fin 2))} {st : State (Fin 2)}
    (passes : ∀ h st e, G h st e → keepsDevicesTest st e = true)
    (run : (machine (Fin 2)).Run G h st)
    : (machine (Fin 2)).Run KeepsDevices h st := by
  refine run.mono fun h st e ok => ?_
  have passes := passes h st e ok
  cases e with
  | run t external =>
      simp only [keepsDevicesTest, Bool.and_eq_true, Bool.or_eq_true, Bool.not_eq_true',
        beq_iff_eq] at passes
      obtain ⟨⟨registers, marks⟩, updates⟩ := passes
      refine ⟨⟨trivial, ?_, fun s writes => ?_⟩, ?_⟩
      · rintro _ _ ⟨⟩ adds
        exact registers.resolve_left (by simp [adds])
      · have writes : (st.thread t).frame.writes = some (s, .lazyDeleted) := writes
        rw [writes] at marks
        cases marks
      · rintro _ _ i ⟨⟩ updating
        rw [updating] at updates
        obtain ⟨s, slot, free⟩ := (Option.any_eq_true ..).mp updates
        simp only [List.all_eq_true, List.mem_finRange, true_imp_iff, Bool.and_eq_true,
          bne_iff_ne] at free
        exact ⟨s, slot, fun u => (free u).1, fun u => (free u).2⟩
  | call t euid c =>
      exact ⟨⟨trivial, (fun _ _ same => by cases same), fun _ writes => by cases writes⟩,
        fun _ _ _ same => by cases same⟩
  | signal t =>
      exact ⟨⟨trivial, (fun _ _ same => by cases same), fun _ writes => by cases writes⟩,
        fun _ _ _ same => by cases same⟩
  | softirq n => cases passes
  | reuse s ts => cases passes

/-- The device whose text a receiver is about to read. -/
def Frame.reads : Frame → Option Int
  | receive f =>
      match f.pc.update with
      | some (.read i _) => some i
      | _ => none
  | _ => none

theorem update_of_reads {frame : Frame} {i : Int} (reads : frame.reads = some i)
    : ∃ f n, frame = .receive f ∧ f.pc.update = some (.read i n) := by
  cases frame with
  | receive f =>
      simp only [Frame.reads] at reads
      split at reads
      · next point =>
          cases reads
          exact ⟨f, _, rfl, point⟩
      · cases reads
  | _ => cases reads

/-- A thread is about to read the text of the device that another one has made. -/
theorem device_exists_of_reader
    : ∃ h st,
        (machine (Fin 2)).Run KeepsDevices h st
        ∧ (st.thread 1).frame.reads = some 1
        ∧ DeviceExists h st
        ∧ BuiltFor 1 0 h
        ∧ st.kernel.dm.Intact 1 := by
  obtain ⟨h, st, run, facts⟩ := Machine.Run.exists_of_replay
    (M := machine (Fin 2)) (G := fun _ st e => keepsDevicesTest st e = true)
    (creating 0 1 ++ .call 1 0 (.tagReceive 1 3 true 16) :: runs 1 11)
    (fun _ st =>
      (st.thread 1).frame.reads == some 1 && st.kernel.tsm.allTagServices 1 == some 0)
    (by decide +kernel)
  obtain ⟨reads, slot⟩ := Bool.and_eq_true_iff.mp facts
  have reads := eq_of_beq reads
  have slot := eq_of_beq slot
  have law := device_exists (keepsDevices_of_test (fun _ _ _ ok => ok) run)
  obtain ⟨f, n, here, point⟩ := update_of_reads reads
  obtain ⟨s, slot', built, text⟩ := law.reads here point
  obtain rfl := Option.some.inj (slot.symm.trans slot')
  exact ⟨h, st, keepsDevices_of_test (fun _ _ _ ok => ok) run, reads, law, built, text⟩

/-- Without the condition the text may be missing: the kernel does not make the device, the
creation returns its descriptor all the same, and a receiver reads the text.
-/
theorem device_missing
    : ¬ ∀ (h : History (State (Fin 2)) (Event (Fin 2))) (st : State (Fin 2)),
        (machine (Fin 2)).Run anyStep h st → DeviceExists h st := by
  intro always
  obtain ⟨h, st, run, facts⟩ := Machine.Run.exists_of_replay
    (M := machine (Fin 2)) (G := anyStep)
    (.call 0 0 (.tagGet 1 CREATE_TAG EVERYONE) :: runs 0 3 ++ .run 0 creationAllocations
      :: runs 0 7 ++ .run 0 1 :: runs 0 4 ++ .call 1 0 (.tagReceive 1 3 true 16) :: runs 1 11)
    (fun _ st =>
      (st.thread 0).frame.result == some 1 && (st.thread 1).frame.reads == some 1
      && (st.kernel.dm.content 1).isNone)
    (by decide +kernel)
  simp only [Bool.and_eq_true, beq_iff_eq, Option.isNone_iff_eq_none] at facts
  obtain ⟨⟨-, reads⟩, missing⟩ := facts
  obtain ⟨f, n, here, point⟩ := update_of_reads reads
  obtain ⟨s, -, -, text, found⟩ := (always h st run).reads here point
  simp only [DevManager.page, missing] at found
  cases found

end TagExchange
