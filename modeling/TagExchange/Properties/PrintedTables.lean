import TagExchange.Properties.Printing

/-! The characters of the char devices in a run: every text that the devices point to is a whole
table, with a line for every level of the service that the device was last filled for.
-/

namespace TagExchange

open Concurrency CStrings

variable {τ : Type} {text : Text}

-----------------------------------------------------------------------------------------
-- Texts and their blocks
-----------------------------------------------------------------------------------------

/-- The block holds the table of the service that the device was last filled for, with these
counters.
-/
def Prints (h : History (State τ) (Event τ)) (i : Int) (text : Text) (content : Option Block)
    : Prop :=
  ∃ key euid b,
    LastFilled i key euid h
    ∧ Printable key euid text
    ∧ content = some b
    ∧ Holds b (render key euid text)

theorem Prints.cons {h : History (State τ) (Event τ)} {i : Int} {content : Option Block}
    (prints : Prints h i text content) {st : State τ} {e : Event τ} (unfilled : Unfilled i h st e)
    : Prints ((st, e) :: h) i text content := by
  obtain ⟨key, euid, b, filled, facts⟩ := prints
  exact ⟨key, euid, b, .later filled unfilled, facts⟩

/-- Every text of a device, and every text about to be stored, has its block. -/
structure WellPrinted (h : History (State τ) (Event τ)) (st : State τ) (x : Blocks τ) : Prop where
  stored
    : ∀ {i b text},
        st.kernel.dm.content i = some b
        → (st.kernel.dm.buffer b).text = some text
        → Prints h i text (x.buffer b)
  created
    : ∀ {t f text},
        (st.thread t).frame = .get f
        → f.pc = .device (.write text)
        → Prints h f.tag text (x.built t)
  updated
    : ∀ {t f i text},
        (st.thread t).frame = .receive f
        → f.pc.update = some (.free i text) ∨ f.pc.update = some (.assign i text)
        → Prints h i text (x.built t)

variable [DecidableEq τ] {found : Nat → FoundMemory} {h : History (State τ) (Event τ)}
  {st st' : State τ} {e : Event τ}

-----------------------------------------------------------------------------------------
-- What a step does to them
-----------------------------------------------------------------------------------------

/-- A thread that does nothing keeps what it has built. -/
theorem built_of_rest {t : τ} (rest : ∀ external, e ≠ .run t external)
    : (blocks found ((st, e) :: h)).built t = (blocks found h).built t := by
  cases e with
  | run u external =>
      have other : t ≠ u := fun same => rest external (same ▸ rfl)
      exact Function.update_of_ne other ..
  | _ => rfl

theorem built_of_run {t : τ} {external : Nat}
    : (blocks found ((st, .run t external) :: h)).built t
      = (blocks found h).build (found h.length) st.kernel t (st.thread t).frame :=
  Function.update_self ..

omit [DecidableEq τ] in
/-- A text is written by a creator. -/
theorem creator_of_writeText {frame : Frame} {i : Int} {text : Text}
    (device : frame.device = some (.writeText i text))
    : ∃ f, frame = .get f ∧ f.pc = .device (.write text) ∧ f.tag = i := by
  cases frame with
  | get f =>
      obtain ⟨key, command, permission, euid, tag, ts, pc⟩ := f
      cases pc
      case device pc =>
        cases pc <;> cases device
        exact ⟨_, rfl, rfl, rfl⟩
      all_goals cases device
  | receive f =>
      obtain ⟨pc, -, device⟩ := Option.bind_eq_some_iff.mp device
      cases pc <;> cases device
  | ctl f =>
      obtain ⟨tag, command, euid, ts, index, awakened, pc⟩ := f
      cases pc
      case destroy pc => cases pc <;> cases device
      all_goals cases device
  | _ => cases device

omit [DecidableEq τ] in
/-- A text is stored by a receiver. -/
theorem receiver_of_storeText {frame : Frame} {i : Int} {text : Text}
    (device : frame.device = some (.storeText i text))
    : ∃ f, frame = .receive f ∧ f.pc.update = some (.assign i text) := by
  cases frame with
  | get f =>
      obtain ⟨key, command, permission, euid, tag, ts, pc⟩ := f
      cases pc
      case device pc => cases pc <;> cases device
      all_goals cases device
  | receive f =>
      obtain ⟨pc, inside, device⟩ := Option.bind_eq_some_iff.mp device
      cases pc <;> cases device
      exact ⟨f, rfl, inside⟩
  | ctl f =>
      obtain ⟨tag, command, euid, ts, index, awakened, pc⟩ := f
      cases pc
      case destroy pc => cases pc <;> cases device
      all_goals cases device
  | _ => cases device

/-- What an event does to the blocks of the buffers. -/
theorem buffer_of_device (found : Nat → FoundMemory) (h : History (State τ) (Event τ))
    {access : DeviceAccess} (device : st.device e = some access)
    : ∃ t external,
        e = .run t external
        ∧ (st.thread t).frame.device = some access
        ∧ (blocks found ((st, e) :: h)).buffer = (blocks found h).access st.kernel t access := by
  cases e with
  | run t external =>
      have device : (st.thread t).frame.device = some access := device
      refine ⟨t, external, rfl, device, ?_⟩
      show ((st.thread t).frame.device.map _).getD _ = _
      rw [device]
      rfl
  | _ => cases device

theorem buffer_of_nothing (device : st.device e = none)
    : (blocks found ((st, e) :: h)).buffer = (blocks found h).buffer := by
  cases e with
  | run t external =>
      have device : (st.thread t).frame.device = none := device
      show ((st.thread t).frame.device.map _).getD _ = _
      rw [device]
      rfl
  | _ => rfl

omit [DecidableEq τ] in
/-- What a creator has built when its last line is printed. -/
theorem build_of_printsLast {f : GetFrame} {line : LastLine}
    (prints : (Frame.get f).printsLast = some line) (x : Blocks τ) (memory : FoundMemory)
    (k : Kernel τ) (t : τ)
    : x.build memory k t (.get f)
      = tsCreateCharDeviceText memory.content memory.line (k.service line.service).key
          (k.service line.service).ownerEuid (countedCounters (line.read k))
          (printedCounters (line.read k)) := by
  obtain ⟨f, same, inside, -⟩ := creator_of_printsLast prints
  obtain rfl := Frame.get.inj same
  simp only [Blocks.build, inside, LastLine.read]

/-- A creator about to write has just printed its last line. -/
theorem filled_of_step (step : st.step e = some st') {t : τ} {f' : GetFrame} {text : Text}
    (after : (st'.thread t).frame = .get f') (writes : f'.pc = .device (.write text))
    : st'.thread t = st.thread t ∧ (∀ external, e ≠ .run t external)
      ∨ ∃ external f line,
          e = .run t external
          ∧ (st.thread t).frame = .get f
          ∧ (st.thread t).frame.printsLast = some line
          ∧ f'.tag = line.device
          ∧ text = printedCounters (line.read st.kernel) := by
  cases turn_of_step step t with
  | rest other thread => exact .inl ⟨thread, other⟩
  | @enter euid c _ idle thread =>
      rw [thread] at after
      cases c <;> cases after
      cases writes
  | @go external frame event exec thread =>
      rw [thread] at after
      obtain rfl : frame = .get f' := after
      rcases create_of_exec exec writes with same | ⟨f, pc, here, within, move, tag⟩
      · cases same
      · cases move with
        | @printLast s n rows last =>
            refine .inr ⟨external, f, ⟨f.tag, s, n, rows⟩, event, here, ?_, tag, rfl⟩
            simp only [here, Frame.printsLast, within, if_pos last]

/-- A receiver about to store has just rewritten what the device points to, or has freed that
since.
-/
theorem rewritten_of_step (step : st.step e = some st') {t : τ} {f' : ReceiveFrame} {i : Int}
    {text : Text} (after : (st'.thread t).frame = .receive f')
    (point : f'.pc.update = some (.free i text) ∨ f'.pc.update = some (.assign i text))
    : st'.thread t = st.thread t ∧ (∀ external, e ≠ .run t external)
      ∨ ∃ external f,
          e = .run t external
          ∧ (st.thread t).frame = .receive f
          ∧ (f.pc.update = some (.free i text)
            ∨ ∃ n old,
                f.pc.update = some (.read i n)
                ∧ st.kernel.dm.text i = some old
                ∧ text = Function.update old f.level n) := by
  cases turn_of_step step t with
  | rest other thread => exact .inl ⟨thread, other⟩
  | @enter euid c _ idle thread =>
      rw [thread] at after
      cases c <;> cases after
      rcases point with point | point <;> cases point
  | @go external frame event exec thread =>
      rw [thread] at after
      obtain rfl : frame = .receive f' := after
      obtain ⟨pc', inside, point⟩
          : ∃ pc', f'.pc.update = some pc' ∧ (pc' = .free i text ∨ pc' = .assign i text) :=
        point.elim (fun at_ => ⟨_, at_, .inl rfl⟩) fun at_ => ⟨_, at_, .inr rfl⟩
      rcases update_of_exec exec inside with rfl | ⟨f, pc, here, within, move, -, -⟩
      · rcases point with point | point <;> cases point
      · refine .inr ⟨external, f, event, here, ?_⟩
        cases move with
        | @read j n old found =>
            rcases point with point | point
            · obtain ⟨rfl, rfl⟩ := UpdatePc.free.inj point
              exact .inr ⟨n, old, within, DevManager.text_of_copied found, rfl⟩
            · cases point
        | @free j text' =>
            rcases point with point | point
            · cases point
            · obtain ⟨rfl, rfl⟩ := UpdatePc.assign.inj point
              exact .inl within
        | _ => rcases point with point | point <;> cases point

/-- The buffers that the devices point to have whole tables after a step, by cases on its access. -/
theorem stored_of_step (before : (machine τ).Run Unheld h st)
    (x : WellPrinted h st (blocks found h)) (step : st.step e = some st') {i : Int} {b : Nat}
    {text : Text}
    (points : st'.kernel.dm.content i = some b) (holds : (st'.kernel.dm.buffer b).text = some text)
    : Prints ((st, e) :: h) i text ((blocks found ((st, e) :: h)).buffer b) := by
  have separate := separate_run before
  have unfilled : Unfilled i h st e := by
    rintro t external line rfl prints rfl
    have blank := blank_of_printsLast before prints
    obtain ⟨f, here, inside, -⟩ := creator_of_printsLast prints
    have device : st.device (.run t external) = none := by
      simp only [State.device, here, Frame.device, inside]
    rw [dm_of_step step, device] at points holds
    rw [DevManager.text, points, Option.bind_some, holds] at blank
    cases blank
  rw [dm_of_step step] at points holds
  cases device : st.device e with
  | none =>
      rw [device] at points holds
      rw [buffer_of_nothing device]
      exact (x.stored points holds).cons unfilled
  | some access =>
      rw [device] at points holds
      obtain ⟨t, external, rfl, at_, blocks_⟩ := buffer_of_device found h device
      rw [blocks_]
      -- A new buffer takes the place of an old one.
      have renewed {j : Int} {new : Option Text} {block : Option Block}
          (made : new = some text → i = j → Prints ((st, .run t external) :: h) i text block)
          (points : (st.kernel.dm.renew j new).content i = some b)
          (holds : ((st.kernel.dm.renew j new).buffer b).text = some text)
          : Prints ((st, .run t external) :: h) i text
              (Function.update (blocks found h).buffer st.kernel.dm.buffers block b) := by
        rcases eq_or_ne i j with same | other
        · subst same
          obtain rfl : st.kernel.dm.buffers = b := by simpa [DevManager.renew] using points
          rw [Function.update_self]
          exact made (by simpa [DevManager.renew] using holds) rfl
        · have points : st.kernel.dm.content i = some b := by
            simpa [DevManager.renew, other] using points
          have older : b ≠ st.kernel.dm.buffers := Nat.ne_of_lt (separate.bound points)
          rw [Function.update_of_ne older]
          refine (x.stored points ?_).cons unfilled
          simpa [DevManager.renew, older] using holds
      cases access with
      | lock j => exact (x.stored points holds).cons unfilled
      | unlock j => exact (x.stored points holds).cons unfilled
      | freeText j =>
          have points : st.kernel.dm.content i = some b := by simpa [DevManager.access] using points
          refine (x.stored points ?_).cons unfilled
          rw [← holds]
          simp only [DevManager.access, DevManager.change_buffer]
          split <;> rfl
      | newText j =>
          have kept : Prints _ i text (Function.update (blocks found h).buffer st.kernel.dm.buffers
              ((blocks found h).buffer st.kernel.dm.buffers) b) :=
            renewed (fun blank => by cases blank) points holds
          rwa [Function.update_eq_self] at kept
      | clearText j => exact (x.stored (DevManager.content_of_clear points) holds).cons unfilled
      | writeText j new =>
          have points : st.kernel.dm.content i = some b := by simpa [DevManager.access] using points
          simp only [DevManager.access, DevManager.change_buffer] at holds
          by_cases mine : st.kernel.dm.content j = some b
          · obtain rfl := separate.apart points mine
            obtain ⟨f, here, writes, rfl⟩ := creator_of_writeText at_
            obtain rfl : new = text := by simpa [mine] using holds
            simp only [Blocks.access, if_pos mine]
            exact (x.created here writes).cons unfilled
          · rw [if_neg mine] at holds
            simp only [Blocks.access, if_neg mine]
            exact (x.stored points holds).cons unfilled
      | storeText j new =>
          obtain ⟨f, here, assigns⟩ := receiver_of_storeText at_
          refine renewed (fun same index => ?_) points holds
          obtain rfl := Option.some.inj same
          subst index
          exact (x.updated here (.inr assigns)).cons unfilled

/-- The tables stay whole. -/
theorem WellPrinted.step (zeroed : ∀ n, (found n).Zeroed) (before : (machine τ).Run Unheld h st)
    (x : WellPrinted h st (blocks found h)) (fits : LinesFit h st e) (step : st.step e = some st')
    : WellPrinted ((st, e) :: h) st' (blocks found ((st, e) :: h)) where
  stored := stored_of_step before x step
  created {t f' text} after writes := by
    rcases filled_of_step step after writes with
      ⟨thread, rest⟩ | ⟨external, f, line, rfl, here, prints, tag, rfl⟩
    · rw [thread] at after
      have holds : (st.thread t).frame.deviceHolds = some f'.tag := by
        rw [after]
        simp only [Frame.deviceHolds, writes, CreateDevicePc.holds, if_true]
      have silent : (st.thread t).frame.printsLast = none := by
        rw [after]
        simp only [Frame.printsLast, writes]
      rw [built_of_rest rest]
      exact (x.created after writes).cons (unfilled_of_holder before holds silent)
    · obtain ⟨printable, wide⟩ := fits.1 line prints
      obtain ⟨b, created, holds⟩ := created_holds printable wide (zeroed h.length)
      rw [built_of_run, here, build_of_printsLast (here ▸ prints)]
      exact ⟨_, _, b, .here ⟨t, external, line, rfl, prints, tag.symm, rfl, rfl⟩, printable, created,
        holds⟩
  updated {t f' i text} after point := by
    rcases rewritten_of_step step after point with
      ⟨thread, rest⟩ | ⟨external, f, rfl, here, freed | ⟨n, old, within, found_, rfl⟩⟩
    · rw [thread] at after
      have index : i = f'.tag := point.elim (indexed_run before after) (indexed_run before after)
      have holds : (st.thread t).frame.deviceHolds = some i := by
        rw [after, index]
        rcases point with point | point <;>
          simp only [Frame.deviceHolds, point, UpdatePc.holds, if_true]
      have silent : (st.thread t).frame.printsLast = none := by
        rw [after]
        rfl
      rw [built_of_rest rest]
      exact (x.updated after point).cons (unfilled_of_holder before holds silent)
    · rw [built_of_run, here]
      simp only [Blocks.build, freed]
      exact (x.updated here (.inl freed)).cons (unfilled_of_receiver here i)
    · have count : n < 10 ^ 9 := by
        refine fits.2 n ?_
        rw [here]
        simp only [Frame.rewrites, within, Option.mem_def]
      have inside : IsLevel f.level :=
        isLevel_run before here (fun same => by rw [same] at within; cases within)
          fun r same => by rw [same] at within; cases within
      obtain ⟨b, points, holds⟩ := Option.bind_eq_some_iff.mp found_
      obtain ⟨key, euid, block, filled, printable, content, table⟩ := x.stored points holds
      obtain ⟨block', updated, table'⟩ :=
        updated_holds printable (zeroed h.length) inside count table
      have filled : LastFilled i key euid ((st, .run t external) :: h) :=
        .later filled (unfilled_of_receiver here i)
      refine ⟨key, euid, block', filled, printable.update count _, ?_, table'⟩
      rw [built_of_run, here]
      simp only [Blocks.build, within, points, Option.bind_some, content]
      exact updated

theorem wellPrinted_run (zeroed : ∀ n, (found n).Zeroed) (run : (machine τ).Run Printing h st)
    : WellPrinted h st (blocks found h) := by
  refine run.invariant (P := fun h st => WellPrinted h st (blocks found h)) ?_ ?_
  · exact {
      stored := fun points _ => by cases points
      created := fun here _ => by cases here
      updated := fun here _ => by cases here }
  · exact fun before x ok step => x.step zeroed (before.mono fun _ _ _ ok => ok.1) ok.2 step

/-- Memory as a kernel gives it that clears it; what is on the stack is not cleared. -/
def clearMemory : FoundMemory :=
  ⟨fun _ => nul, fun _ => 'x', fun _ => nul, fun _ => nul, fun _ => nul, fun _ => nul, fun _ => 'x'⟩

theorem clearMemory_zeroed : clearMemory.Zeroed :=
  ⟨fun _ => rfl, fun _ => rfl, fun _ => rfl, fun _ => rfl, fun _ => rfl⟩

end TagExchange
