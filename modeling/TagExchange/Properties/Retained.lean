import TagExchange.Properties.Sequential
import TagExchange.Properties.TextPublication

/-! Runs in which no service is removed: every creation gets its device, and keeps it. -/

namespace TagExchange

open Concurrency Protocol

variable {τ : Type}

/-- A removal, from the marking of its service to its release. -/
def Frame.dooms : Frame → Bool
  | ctl f =>
      match f.pc with
      | .unlockIndex .destroy | .unlock .destroy | .destroyIndex | .destroy _ | .unlink | .find _
      | .incRemaining | .kfree => true
      | _ => false
  | _ => false

variable [DecidableEq τ]

/-- The kernel registers every device that a creation asks for. -/
def RegistersDevices (st : State τ) (e : Event τ) : Prop :=
  ∀ t external, e = .run t external → (st.thread t).frame.addsDevice = true → external = 0

/-- Creations use keys that hash into the arrays and get their devices from the kernel, and no
`tag_ctl` marks a service as deleted.
-/
def RetainsServices (st : State τ) (e : Event τ) : Prop :=
  HashInRange e ∧ RegistersDevices st e ∧ ∀ s, st.writes e ≠ some (s, .lazyDeleted)

def KeepsServices : Guard (State τ) (Event τ) :=
  fun _ => RetainsServices

variable {h : History (State τ) (Event τ)} {st st' : State τ} {e : Event τ} {t u : τ}
  {i : Int} {s : Ref}

-----------------------------------------------------------------------------------------
-- No removals
-----------------------------------------------------------------------------------------

omit [DecidableEq τ] in
theorem dooms_of_fells {r : Ref} {frame : Frame} (fells : frame.fells = some (i, r))
    : frame.dooms = true := by
  cases frame with
  | ctl f =>
      obtain ⟨tag, command, euid, ts, index, awakened, pc⟩ := f
      cases pc
      case destroy pc => rfl
      all_goals cases fells
  | _ => cases fells

omit [DecidableEq τ] in
theorem dooms_of_unlinks {frame : Frame} (unlinks : frame.unlinks = some (i, s))
    : frame.dooms = true := by
  cases frame with
  | ctl f =>
      obtain ⟨tag, command, euid, ts, index, awakened, pc⟩ := f
      cases pc <;> cases unlinks
      rfl
  | _ => cases unlinks

omit [DecidableEq τ] in
theorem dooms_of_frees {c : CallId τ} {frame : Frame} (frees : (frame.op c).frees = some s)
    : frame.dooms = true := by
  obtain ⟨tag, command, euid, index, awakened, rfl⟩ := point_of_frees frees
  rfl

/-- A removal begins with the marking of its service, by cases on the moves. -/
theorem dooms_of_exec {k k' : Kernel τ} {external : Nat} {c : CallId τ} {before after : Frame}
    (exec : k.exec external (before.op c) = some (k', after)) (undoomed : before.dooms = false)
    (unmarked : ∀ s, before.writes ≠ some (s, .lazyDeleted))
    : after.dooms = false := by
  have same := Kernel.exec_sameCall exec
  cases before with
  | ctl f =>
      change k.exec external (tagCtl c f) = _ at exec
      have move := ctlMove_of_exec exec
      obtain ⟨tag, command, euid, ts, index, awakened, pc⟩ := f
      cases pc
      case delete => exact absurd rfl (unmarked ts)
      case unlockIndex after => cases move; cases after <;> first | rfl | cases undoomed
      all_goals cases move <;> first | rfl | cases undoomed
  | user last => cases exec
  | _ => cases after <;> first | rfl | cases same

/-- Nothing is freed, and no removal has marked its service. -/
structure State.Retained (st : State τ) : Prop where
  unfreed : ∀ s, st.kernel.freed s = false
  undoomed : ∀ t, (st.thread t).frame.dooms = false

/-- A step that marks nothing frees nothing, by cases on the event. -/
theorem State.Retained.step (x : st.Retained) (ok : KeepsServices h st e)
    (step : st.step e = some st')
    : st'.Retained := by
  refine ⟨fun s => ?_, fun t => ?_⟩
  · cases State.steps_of_step step with
    | @run t external k frame exec =>
        refine (Kernel.exec_freed exec fun frees => ?_).trans (x.unfreed s)
        exact absurd (dooms_of_frees frees) (by simp [x.undoomed t])
    | softirq ready exec =>
        obtain ⟨-, freed, -⟩ := homes_of_callback exec
        exact (congrFun freed s).trans (x.unfreed s)
    | _ => exact x.unfreed s
  · cases turn_of_step step t with
    | rest _ thread => exact thread ▸ x.undoomed t
    | @enter euid c _ _ thread =>
        rw [thread]
        cases c <;> rfl
    | @go external frame event exec thread =>
        rw [thread]
        subst event
        exact dooms_of_exec exec (x.undoomed t) ok.2.2

theorem retained_run (run : (machine τ).Run KeepsServices h st) : st.Retained :=
  run.invariant (P := fun _ st => st.Retained) ⟨fun _ => rfl, fun _ => rfl⟩
    fun _ x ok step => x.step ok step

/-- Memory that is not freed is not given out again. -/
theorem State.Retained.noReuse (x : st.Retained) (step : st.step e = some st') : NoReuse e := by
  cases State.steps_of_step step with
  | @reuse s ts freed => cases freed.symm.trans (x.unfreed s)
  | _ => trivial

theorem KeepsServices.makes_step (run : (machine τ).Run KeepsServices h st)
    (ok : KeepsServices h st e) (step : st.step e = some st')
    : MakesDevices h st e := by
  have noReuse := (retained_run run).noReuse step
  refine ⟨?_, ok.2.1, fun s writes => absurd writes (ok.2.2 s)⟩
  cases e <;> trivial

/-- The run is one of those that make their devices and keep the registry. -/
theorem KeepsServices.kept (run : (machine τ).Run KeepsServices h st)
    : (machine τ).Run (fun h st e => MakesDevices h st e ∧ FreedKeptAndHashInRange h st e) h st := by
  induction run with
  | start => exact .start
  | @next h st e st' before ok step ih =>
      have step' : st.step e = some st' := step
      exact ih.next ⟨KeepsServices.makes_step before ok step',
        (retained_run before).noReuse step', ok.1⟩ step

theorem KeepsServices.makes (run : (machine τ).Run KeepsServices h st)
    : (machine τ).Run MakesDevices h st :=
  (KeepsServices.kept run).mono fun _ _ _ ok => ok.1

theorem KeepsServices.unheld (run : (machine τ).Run KeepsServices h st)
    : (machine τ).Run Unheld h st :=
  MakesDevices.unheld (KeepsServices.makes run)

theorem KeepsServices.registry (run : (machine τ).Run KeepsServices h st) : RegistryInvariant st :=
  registryInvariant_run ((KeepsServices.kept run).mono fun _ _ _ ok => ok.2)

/-- A service stays in its slot. -/
theorem slot_of_retained (run : (machine τ).Run KeepsServices h st) (step : st.step e = some st')
    (slot : st.kernel.tsm.allTagServices i = some s)
    : st'.kernel.tsm.allTagServices i = some s := by
  refine (slot_unless_unlinked (Unheld.safe (KeepsServices.unheld run)) step slot).resolve_right ?_
  rintro ⟨u, external, -, unlinks, -⟩
  exact absurd (dooms_of_unlinks unlinks) (by simp [(retained_run run).undoomed u])

-----------------------------------------------------------------------------------------
-- Texts
-----------------------------------------------------------------------------------------

/-- Every service has a slot or is about to get one, and its device a text or is about to get one;
a text that has been freed is about to be replaced.
-/
structure State.Furnished (st : State τ) : Prop where
  registered
    : ∀ {s},
        s < st.kernel.services
        → (∃ t i, (st.thread t).frame.creation = some (.publishing, i, s))
          ∨ ∃ i, st.kernel.tsm.allTagServices i = some s
  awaited
    : ∀ {i s},
        st.kernel.tsm.allTagServices i = some s
        → (∃ t, (st.thread t).frame.creation = some (.building, i, s))
          ∨ ∃ b, st.kernel.dm.page i = some b
  homed
    : ∀ {i b},
        st.kernel.dm.page i = some b
        → ∃ s,
            st.kernel.tsm.allTagServices i = some s
            ∧ ∀ t, (st.thread t).frame.creation ≠ some (.building, i, s)
  freed
    : ∀ {i text},
        st.kernel.dm.page i = some ⟨text, true⟩
        → ∃ t text', (st.thread t).frame.assigns = some (i, text')
  freeing
    : ∀ {t i},
        (st.thread t).frame.discards = some i
        → ∃ text, st.kernel.dm.page i = some ⟨text, false⟩
  assigning
    : ∀ {t i text},
        (st.thread t).frame.assigns = some (i, text)
        → ∃ text', st.kernel.dm.page i = some ⟨text', true⟩

/-- The text of a device whose mutex a thread owns changes only in a step of this thread. -/
theorem page_of_owner (run : (machine τ).Run Unheld h st) (step : st.step e = some st')
    (owner : (st.thread t).frame.deviceHolds = some i) (other : ∀ external, e ≠ .run t external)
    : st'.kernel.dm.page i = st.kernel.dm.page i := by
  refine (page_of_step (separate_run run) step i).resolve_right ?_
  rintro ⟨u, external, access, rfl, device, touches⟩
  have texts : access.texts = some i := by cases touches <;> rfl
  obtain rfl := (exclusive_run run).one owner (deviceHolds_of_texts run device texts)
  exact other external rfl

theorem deviceHolds_of_assigns (run : (machine τ).Run Unheld h st) {text : Text}
    (assigns : (st.thread t).frame.assigns = some (i, text))
    : (st.thread t).frame.deviceHolds = some i :=
  deviceHolds_of_texts run (device_of_assigns assigns).1 rfl

omit [DecidableEq τ] in
theorem device_of_discards {frame : Frame} (discards : frame.discards = some i)
    : frame.device = some (.freeText i) := by
  obtain ⟨f, text, rfl, point⟩ := update_of_discards discards
  simp only [Frame.device, point]
  rfl

theorem deviceHolds_of_discards (run : (machine τ).Run Unheld h st)
    (discards : (st.thread t).frame.discards = some i)
    : (st.thread t).frame.deviceHolds = some i :=
  deviceHolds_of_texts run (device_of_discards discards) rfl

/-- What a step does to the text of a device, by cases on the accesses. -/
inductive PageTurn (st st' : State τ) (e : Event τ) (i : Int) : Prop
  | same (page : st'.kernel.dm.page i = st.kernel.dm.page i)
  | erect {t external s} (event : e = .run t external)
    (building : (st.thread t).frame.creation = some (.building, i, s))
    (filling : (st'.thread t).frame.creation = some (.filling, i, s))
    (page : st'.kernel.dm.page i = some ⟨none, false⟩)
  | write {t external s text} (event : e = .run t external)
    (filling : (st.thread t).frame.creation = some (.filling, i, s))
    (page
      : st'.kernel.dm.page i = (st.kernel.dm.page i).map fun b => { b with text := some text })
  | free {t external text} (event : e = .run t external)
    (discards : (st.thread t).frame.discards = some i)
    (assigns : (st'.thread t).frame.assigns = some (i, text))
    (page : st'.kernel.dm.page i = (st.kernel.dm.page i).map fun b => { b with freed := true })
  | assign {t external text} (event : e = .run t external)
    (assigns : (st.thread t).frame.assigns = some (i, text))
    (page : st'.kernel.dm.page i = some ⟨some text, false⟩)

theorem pageTurn_of_step (run : (machine τ).Run KeepsServices h st) (ok : KeepsServices h st e)
    (step : st.step e = some st') (i : Int)
    : PageTurn st st' e i := by
  have makes := KeepsServices.makes run
  have separate := separate_run run
  rcases page_of_step separate step i with same | ⟨t, external, access, rfl, device, touches⟩
  · exact .same same
  · have page := page_of_access (i := i) step device
    rw [DevManager.page_access separate] at page
    have okMakes := KeepsServices.makes_step run ok step
    cases touches with
    | erect erects =>
        obtain ⟨s, building, -⟩ := building_of_erects makes erects
        exact .erect rfl building (filling_of_erects okMakes step erects building)
          (page.trans (if_pos rfl))
    | clear lost => exact absurd lost (unlost_run makes)
    | write filling => exact .write rfl filling (page.trans (if_pos rfl))
    | fell fells =>
        exact absurd (dooms_of_fells fells) (by simp [(retained_run run).undoomed t])
    | free here point =>
        refine .free rfl ?_ (assigns_of_free step here point) (page.trans (if_pos rfl))
        rw [here]
        simp only [Frame.discards, point]
    | assign assigns => exact .assign rfl assigns (page.trans (if_pos rfl))

/-- A receiver that is about to free a text was so before, or has just read it. -/
theorem discards_of_step (step : st.step e = some st')
    (after : (st'.thread t).frame.discards = some i)
    : ((st.thread t).frame.discards = some i ∧ ∀ external, e ≠ .run t external)
      ∨ ((∃ external, e = .run t external)
        ∧ (st.thread t).frame.reads = some i
        ∧ ∃ text, st.kernel.dm.text i = some text) := by
  cases turn_of_step step t with
  | rest other thread => exact .inl ⟨thread ▸ after, other⟩
  | @enter euid c _ _ thread =>
      rw [thread] at after
      cases c <;> cases after
  | @go external frame event exec thread =>
      rw [thread] at after
      obtain ⟨f', text, rfl, point⟩ := update_of_discards after
      rcases update_of_exec exec point with check | ⟨f, pc, here, within, move, -, -⟩
      · cases check
      · cases move with
        | @read j n text found =>
            refine .inr ⟨⟨external, event⟩, ?_, text, DevManager.text_of_copied found⟩
            rw [here]
            simp only [Frame.reads, within]

/-- A receiver that is about to assign a text was so before, or has just freed the last one. -/
theorem assigns_of_step {text : Text} (step : st.step e = some st')
    (after : (st'.thread t).frame.assigns = some (i, text))
    : ((st.thread t).frame.assigns = some (i, text) ∧ ∀ external, e ≠ .run t external)
      ∨ ((∃ external, e = .run t external) ∧ (st.thread t).frame.discards = some i) := by
  cases turn_of_step step t with
  | rest other thread => exact .inl ⟨thread ▸ after, other⟩
  | @enter euid c _ _ thread =>
      rw [thread] at after
      cases c <;> cases after
  | @go external frame event exec thread =>
      rw [thread] at after
      cases frame with
      | receive f' =>
          have point : f'.pc.update = some (.assign i text) := by
            simp only [Frame.assigns] at after
            split at after
            · next point =>
                cases after
                exact point
            · cases after
          rcases update_of_exec exec point with check | ⟨f, pc, here, within, move, -, -⟩
          · cases check
          · cases move
            refine .inr ⟨⟨external, event⟩, ?_⟩
            rw [here]
            simp only [Frame.discards, within]
      | _ => cases after

/-- A creation that has to build the device of a service had to before, or has just published it. -/
theorem building_of_step (run : (machine τ).Run KeepsServices h st) (ok : MakesDevices h st e)
    (step : st.step e = some st')
    (after : (st'.thread t).frame.creation = some (.building, i, s))
    : (st.thread t).frame.creation = some (.building, i, s)
      ∨ st.kernel.tsm.allTagServices i = none := by
  rcases creationTurn_of_step ok step t with ⟨same, -⟩ | ⟨-, turn⟩
  · exact .inl (same ▸ after)
  · rw [after] at turn
    generalize here : (st.thread t).frame.creation = creation at turn
    cases turn with
    | keep => exact .inl rfl
    | publish => exact .inr (fresh_of_publishing (Unheld.safe (KeepsServices.unheld run)) here).1

/-- A step allocates at most one service, which it is about to publish. -/
theorem publishing_of_allocation (step : st.step e = some st') (born : s < st'.kernel.services)
    (unborn : ¬ s < st.kernel.services)
    : ∃ t i, (st'.thread t).frame.creation = some (.publishing, i, s) := by
  cases State.steps_of_step step with
  | @run t external k frame exec =>
      refine ⟨t, ?_⟩
      rw [State.setThread_frame, if_pos rfl]
      obtain ⟨ts, allocates⟩ : ∃ ts, (st.op t).allocates = some ts := by
        refine Option.ne_none_iff_exists'.mp fun nothing => unborn ?_
        rw [← Kernel.exec_allocates_none exec nothing]
        exact born
      have services := (Kernel.exec_allocates exec allocates).1
      obtain rfl : s = st.kernel.services := by
        have bound : s < st.kernel.services + 1 := services ▸ born
        exact Nat.le_antisymm (Nat.le_of_lt_succ bound) (Nat.not_lt.mp unborn)
      rw [State.op, op_allocates] at allocates
      cases here : (st.thread t).frame with
      | get f =>
          obtain ⟨key, command, permission, euid, tag, ts, pc⟩ := f
          rw [here] at allocates
          rw [State.op, here] at exec
          cases pc <;> cases allocates
          obtain ⟨-, rfl⟩ := Prod.mk.inj (Option.some.inj exec)
          exact ⟨tag, rfl⟩
      | _ => rw [here] at allocates; cases allocates
  | softirq ready exec =>
      obtain ⟨-, -, services⟩ := homes_of_callback exec
      exact absurd (services ▸ born) unborn
  | _ => exact absurd born unborn

/-- A receiver that is about to read a text owns its mutex. -/
theorem deviceHolds_of_reads (run : (machine τ).Run Unheld h st)
    (reads : (st.thread t).frame.reads = some i)
    : (st.thread t).frame.deviceHolds = some i ∧ (st.thread t).frame.device = none := by
  obtain ⟨f, n, here, point⟩ := update_of_reads reads
  have index : i = f.tag := indexed_run run here point
  rw [here]
  simp only [Frame.deviceHolds, Frame.device, point, index]
  exact ⟨rfl, rfl⟩

omit [DecidableEq τ] in
/-- A thread that is about to assign a text neither reads nor fills one. -/
theorem only_of_assigns {frame : Frame} {text : Text} (assigns : frame.assigns = some (i, text))
    : frame.reads = none ∧ frame.creation = none := by
  cases frame with
  | receive f =>
      refine ⟨?_, rfl⟩
      simp only [Frame.assigns] at assigns
      split at assigns
      · next point => simp only [Frame.reads, point]
      · cases assigns
  | _ => cases assigns

/-- What every step keeps, by cases on what it does to the text. -/
theorem State.Furnished.step (run : (machine τ).Run KeepsServices h st) (x : st.Furnished)
    (ok : KeepsServices h st e) (step : st.step e = some st')
    : st'.Furnished := by
  have unheld := KeepsServices.unheld run
  have makes := KeepsServices.makes_step run ok step
  have exclusive := exclusive_run unheld
  -- A text of a device that has one.
  have stays {i b} (page : st.kernel.dm.page i = some b) : ∃ b, st'.kernel.dm.page i = some b := by
    cases pageTurn_of_step run ok step i with
    | same same => exact ⟨b, same.trans page⟩
    | erect _ _ _ now => exact ⟨_, now⟩
    | write _ _ now => exact ⟨_, now.trans (congrArg _ page)⟩
    | free _ _ _ now => exact ⟨_, now.trans (congrArg _ page)⟩
    | assign _ _ now => exact ⟨_, now⟩
  constructor
  case registered =>
    intro s born
    by_cases old : s < st.kernel.services
    · rcases x.registered old with ⟨t, i, publishing⟩ | ⟨i, slot⟩
      · rcases creationTurn_of_step makes step t with ⟨same, -⟩ | ⟨⟨external, event⟩, turn⟩
        · exact .inl ⟨t, i, same.trans publishing⟩
        · subst event
          exact .inr ⟨i, (published_of_step unheld step publishing).1⟩
      · exact .inr ⟨i, slot_of_retained run step slot⟩
    · exact .inl (publishing_of_allocation step born old)
  case awaited =>
    intro i s after
    rcases slot_before_step step after with slot | ⟨t, external, rfl, publishing⟩
    · rcases x.awaited slot with ⟨t, building⟩ | ⟨b, page⟩
      · rcases creationTurn_of_step makes step t with ⟨same, -⟩ | ⟨⟨external, rfl⟩, turn⟩
        · exact .inl ⟨t, same.trans building⟩
        · rw [building] at turn
          generalize now : (st'.thread t).frame.creation = creation at turn
          cases turn with
          | keep => exact .inl ⟨t, now⟩
          | content erects =>
              have page := page_of_access (i := i) step (device_of_erects erects)
              rw [DevManager.page_access (separate_run run)] at page
              exact .inr ⟨_, page.trans (if_pos rfl)⟩
      · exact .inr (stays page)
    · exact .inl ⟨t, building_of_publishing makes step publishing⟩
  case homed =>
    intro i b after
    -- The home of a device that had a text.
    have home {b} (page : st.kernel.dm.page i = some b)
        : ∃ s,
            st'.kernel.tsm.allTagServices i = some s
            ∧ ∀ t, (st'.thread t).frame.creation ≠ some (.building, i, s) := by
      obtain ⟨s, slot, nobody⟩ := x.homed page
      refine ⟨s, slot_of_retained run step slot, fun t building => ?_⟩
      rcases building_of_step run makes step building with old | empty
      · exact nobody t old
      · cases slot.symm.trans empty
    cases pageTurn_of_step run ok step i with
    | same same => exact home (same.symm.trans after)
    | @erect t external s event building filling page =>
        have slot := (equips_run (KeepsServices.makes run)
          (equips_iff.mpr ⟨_, .inl rfl, building⟩)).1
        refine ⟨s, slot_of_retained run step slot, fun u now => ?_⟩
        -- Nobody else builds the device of this service.
        rcases building_of_step run makes step now with old | empty
        · obtain rfl := creator_unique (KeepsServices.makes run) building old
          cases filling.symm.trans now
        · cases slot.symm.trans empty
    | write _ _ page =>
        obtain ⟨b, found, -⟩ := Option.map_eq_some_iff.mp (page.symm.trans after)
        exact home found
    | free _ _ _ page =>
        obtain ⟨b, found, -⟩ := Option.map_eq_some_iff.mp (page.symm.trans after)
        exact home found
    | assign _ assigns _ =>
        obtain ⟨text, found⟩ := x.assigning assigns
        exact home found
  case freed =>
    intro i text after
    cases pageTurn_of_step run ok step i with
    | same same =>
        obtain ⟨t, text', assigns⟩ := x.freed (same.symm.trans after)
        by_cases own : ∃ external, e = .run t external
        · obtain ⟨external, rfl⟩ := own
          have page := page_of_access (i := i) step (device_of_assigns assigns).1
          rw [DevManager.page_access (separate_run run)] at page
          cases after.symm.trans (page.trans (if_pos rfl))
        · have thread := thread_of_other step (not_exists.mp own) (device_of_assigns assigns).2
          exact ⟨t, text', thread ▸ assigns⟩
    | erect _ _ _ page => cases after.symm.trans page
    | @write t external s written event filling page =>
        obtain ⟨b, found, same⟩ := Option.map_eq_some_iff.mp (page.symm.trans after)
        obtain ⟨text', freed⟩ := b
        cases same
        obtain ⟨u, text', assigns⟩ := x.freed found
        -- Both own the mutex of the device.
        obtain rfl := exclusive.one (deviceHolds_of_filling filling)
          (deviceHolds_of_assigns unheld assigns)
        cases (only_of_assigns assigns).2.symm.trans filling
    | @free t external text' event discards assigns page => exact ⟨t, text', assigns⟩
    | assign _ _ page => cases after.symm.trans page
  case freeing =>
    intro t i after
    rcases discards_of_step step after with ⟨old, other⟩ | ⟨⟨external, rfl⟩, reads, text, found⟩
    · have same := page_of_owner unheld step (deviceHolds_of_discards unheld old) other
      obtain ⟨text, page⟩ := x.freeing old
      exact ⟨text, same.trans page⟩
    · obtain ⟨owner, quiet⟩ := deviceHolds_of_reads unheld reads
      rw [DevManager.text_eq_page] at found
      obtain ⟨⟨text', freed⟩, page, -⟩ := Option.bind_eq_some_iff.mp found
      have unfreed : freed = false := by
        cases freed with
        | false => rfl
        | true =>
            obtain ⟨u, _, assigns⟩ := x.freed page
            obtain rfl := exclusive.one owner (deviceHolds_of_assigns unheld assigns)
            cases (only_of_assigns assigns).1.symm.trans reads
      subst unfreed
      have same : st'.kernel.dm.page i = st.kernel.dm.page i := by
        rw [dm_of_step step]
        simp only [State.device, quiet]
      exact ⟨text', same.trans page⟩
  case assigning =>
    intro t i text after
    rcases assigns_of_step step after with ⟨old, other⟩ | ⟨⟨external, rfl⟩, discards⟩
    · have same := page_of_owner unheld step (deviceHolds_of_assigns unheld old) other
      obtain ⟨text', page⟩ := x.assigning old
      exact ⟨text', same.trans page⟩
    · obtain ⟨text', found⟩ := x.freeing discards
      have page := page_of_access (i := i) step (device_of_discards discards)
      rw [DevManager.page_access (separate_run run)] at page
      simp only [if_true, found, Option.map_some] at page
      exact ⟨text', page⟩

theorem furnished_run (run : (machine τ).Run KeepsServices h st) : st.Furnished := by
  refine run.invariant (P := fun _ st => st.Furnished) ?_ fun before x ok step => x.step before ok step
  constructor
  case registered => exact fun born => absurd born (Nat.not_lt_zero _)
  all_goals
    intros
    rename_i now
    cases now

/-- Between two calls every service is in a slot, and the devices of these slots, and no others, have
texts that are not freed.
-/
theorem furnished_of_idle (run : (machine τ).Run KeepsServices h st) (idle : st.Idle)
    : (∀ s, s < st.kernel.services ↔ ∃ i, st.kernel.tsm.allTagServices i = some s)
      ∧ ∀ i,
          (∃ s, st.kernel.tsm.allTagServices i = some s)
          ↔ ∃ text, st.kernel.dm.page i = some ⟨text, false⟩ := by
  have x := furnished_run run
  have nobody (t : τ) : ∃ last, (st.thread t).frame = .user last :=
    Frame.eq_user_of_idle (idle t)
  refine ⟨fun s => ⟨fun born => ?_, ?_⟩, fun i => ⟨?_, ?_⟩⟩
  · refine (x.registered born).resolve_left ?_
    rintro ⟨t, i, publishing⟩
    obtain ⟨last, user⟩ := nobody t
    rw [user] at publishing
    cases publishing
  · rintro ⟨i, slot⟩
    exact ((homes_run run).slot slot).1
  · rintro ⟨s, slot⟩
    rcases x.awaited slot with ⟨t, building⟩ | ⟨⟨text, freed⟩, page⟩
    · obtain ⟨last, user⟩ := nobody t
      rw [user] at building
      cases building
    · cases freed with
      | false => exact ⟨text, page⟩
      | true =>
          obtain ⟨t, _, assigns⟩ := x.freed page
          obtain ⟨last, user⟩ := nobody t
          rw [user] at assigns
          cases assigns
  · rintro ⟨text, page⟩
    obtain ⟨s, slot, -⟩ := x.homed page
    exact ⟨s, slot⟩

end TagExchange
