import TagExchange.Concurrency.Past
import TagExchange.Model.DeviceBlocks
import TagExchange.Properties.DeviceTruth
import TagExchange.Properties.InitialText

/-! What the two functions of the device driver print into a text, which steps print, and that they do
so one after the other.
-/

namespace TagExchange

open Concurrency CStrings

variable {τ : Type} {key euid n : Int} {counted text : Text}

-----------------------------------------------------------------------------------------
-- The two functions that build a text
-----------------------------------------------------------------------------------------

/-- The values that are printed whole, whatever their level. -/
structure Printable (key euid : Int) (text : Text) : Prop where
  key : -99 ≤ key ∧ key ≤ 999
  euid : IsInt euid
  counts : ∀ l ∈ levels, text l < 10 ^ 9

instance : Decidable (Printable key euid text) :=
  decidable_of_iff
    ((-99 ≤ key ∧ key ≤ 999) ∧ (-2 ^ 31 ≤ euid ∧ euid < 2 ^ 31) ∧ ∀ l ∈ levels, text l < 10 ^ 9)
    ⟨fun x => ⟨x.1, x.2.1, x.2.2⟩, fun x => ⟨x.key, x.euid, x.counts⟩⟩

theorem Printable.keyInt (printable : Printable key euid text) : IsInt key := by
  have bound := printable.key
  unfold IsInt
  omega

/-- No counter takes more characters than were counted for it. -/
def CountsFit (counted text : Text) : Prop :=
  ∀ l ∈ levels, (printNat (text l)).length ≤ countCharsOfNumber (toLong (counted l))

instance : Decidable (CountsFit counted text) :=
  inferInstanceAs (Decidable (∀ l ∈ levels, _ ≤ _))

/-- All lines fit for a small key, where the counters fit. -/
theorem Printable.lineFits (printable : Printable key euid text) (wide : CountsFit counted text)
    {l : Int} (member : l ∈ levels)
    : LineFits key l (counted l) (text l) := by
  have small : ∀ l ∈ levels, text l < 2 ^ 63 :=
    fun l member => lt_trans (printable.counts l member) (by decide)
  have alone := (lineFits_iff_of_small small).mpr printable.key l member
  have width := wide l member
  rw [LineFits, countCharsOfNumber_toLong (small l member)] at alone
  rw [LineFits]
  omega

/-- The line of the key 100 loses its end where its counter grows from 9 to 10 after it was counted. -/
example : ¬ LineFits 100 10 9 10 := by
  rw [LineFits, countCharsOfNumber_toLong (by decide)]
  decide

/-- What a kernel that clears the memory it gives finds there. -/
structure FoundMemory.Zeroed (found : FoundMemory) : Prop where
  content : ∀ i, found.content i = nul
  update : found.update.Zeroed

variable {found : FoundMemory}

/-- `ts_create_char_device_file` leaves the whole table. -/
theorem created_holds (printable : Printable key euid text) (wide : CountsFit counted text)
    (zeroed : found.Zeroed)
    : ∃ b,
        tsCreateCharDeviceText found.content found.line key euid counted text = some b
        ∧ Holds b (render key euid text) := by
  have bounded : Bounded key euid text :=
    ⟨printable.keyInt, printable.euid, fun l member =>
      lt_trans (printable.counts l member) (by decide)⟩
  obtain ⟨b, created, holds, -⟩ :=
    tsCreateCharDeviceText_eq_some found.content found.line counted bounded (zeroed.content _)
  rw [(cutRows_eq_iff levels).mpr fun l member => printable.lineFits wide member] at holds
  exact ⟨b, created, holds⟩

/-- `update_chrdev` leaves the table with the new counter. -/
theorem updated_holds (printable : Printable key euid text) (zeroed : found.Zeroed) {l : Int}
    (inside : IsLevel l) {n : Nat} (count : n < 10 ^ 9) {content : Block}
    (holds : Holds content (render key euid text))
    : ∃ b,
        updateChrdevText found.update content l.toNat n = some b
        ∧ Holds b (render key euid (Function.update text l n)) := by
  obtain ⟨level, rfl⟩ := Int.eq_ofNat_of_zero_le inside.1
  have bound : level < 32 := Int.ofNat_lt.mp inside.2
  have read : atomicRead n = n := atomicRead_of_lt (lt_trans count (by decide))
  have digits : (printNat (atomicRead n)).length < 10 := by
    rw [read]
    exact Nat.lt_succ_of_le ((length_printNat_le_iff (by decide)).mpr count)
  have short := length_render_le printable.keyInt printable.euid printable.counts
  have bufsize : BUFSIZE = 4096 := rfl
  obtain ⟨b, updated, result, -⟩ :=
    updateChrdevText_eq_some (cellOf_render key euid text bound) holds
      (zeroed.update.terminated _) (by omega) digits
  rw [read, ← render_update bound] at result
  exact ⟨b, updated, result⟩

theorem Printable.update (printable : Printable key euid text) {n : Nat} (count : n < 10 ^ 9)
    (l : Int)
    : Printable key euid (Function.update text l n) := by
  refine ⟨printable.key, printable.euid, fun l' member => ?_⟩
  rcases eq_or_ne l' l with rfl | other
  · rwa [Function.update_self]
  · rw [Function.update_of_ne other]
    exact printable.counts l' member

-----------------------------------------------------------------------------------------
-- Runs
-----------------------------------------------------------------------------------------

/-- The last line of a table, before its counter is read for the second time. -/
structure LastLine where
  device : Int
  service : Ref
  counted : Nat
  rows : List (Nat × Nat)
deriving DecidableEq

/-- The counters of all lines, with that of the last one as it is. -/
def LastLine.read (line : LastLine) (k : Kernel τ) : List (Nat × Nat) :=
  line.rows ++ [(line.counted, ((k.service line.service).level line.rows.length).threadWaiting)]

/-- The line that completes a table with the next step of the thread. -/
def Frame.printsLast : Frame → Option LastLine
  | get f =>
      match f.pc with
      | .device (.print s n rows) =>
          if MAX_LEVELS.toNat ≤ rows.length + 1 then some ⟨f.tag, s, n, rows⟩ else none
      | _ => none
  | _ => none

/-- The counter that the thread prints next into a text. -/
def Frame.rewrites : Frame → Option Nat
  | receive f =>
      match f.pc.update with
      | some (.read _ n) => some n
      | _ => none
  | _ => none

/-- What the next step of a thread prints fits its line. -/
def Kernel.FitsLine (k : Kernel τ) (frame : Frame) : Prop :=
  (∀ line ∈ frame.printsLast,
    Printable (k.service line.service).key (k.service line.service).ownerEuid
        (printedCounters (line.read k))
      ∧ CountsFit (countedCounters (line.read k)) (printedCounters (line.read k)))
  ∧ ∀ n ∈ frame.rewrites, n < 10 ^ 9

instance (k : Kernel τ) (frame : Frame) : Decidable (k.FitsLine frame) :=
  inferInstanceAs (Decidable (_ ∧ _))

/-- The runs that print only what fits its line. -/
def LinesFit : Guard (State τ) (Event τ)
  | _, st, .run t _ => st.kernel.FitsLine (st.thread t).frame
  | _, _, _ => True

instance (h : History (State τ) (Event τ)) (st : State τ)
    : (e : Event τ) → Decidable (LinesFit h st e)
  | .run t _ => inferInstanceAs (Decidable (st.kernel.FitsLine (st.thread t).frame))
  | .call .. | .softirq .. | .signal .. | .reuse .. => isTrue trivial

/-- The same runs, in which also freed memory that somebody points to is left alone. -/
def Printing [DecidableEq τ] : Guard (State τ) (Event τ) :=
  fun h st e => Unheld h st e ∧ LinesFit h st e

instance [DecidableEq τ] [Fintype τ] (h : History (State τ) (Event τ)) (st : State τ) (e : Event τ)
    : Decidable (Printing h st e) :=
  inferInstanceAs (Decidable (ReuseUnheld st e ∧ LinesFit h st e))

/-- The step completes the table of a device for a service with this key and this owner. -/
def Fills (i key euid : Int) : Guard (State τ) (Event τ) :=
  fun _ st e =>
    ∃ t external line,
      e = .run t external
      ∧ (st.thread t).frame.printsLast = some line
      ∧ line.device = i
      ∧ (st.kernel.service line.service).key = key
      ∧ (st.kernel.service line.service).ownerEuid = euid

/-- The step completes no table of the device. -/
def Unfilled (i : Int) : Guard (State τ) (Event τ) :=
  fun _ st e =>
    ∀ t external line,
      e = .run t external → (st.thread t).frame.printsLast = some line → line.device ≠ i

/-- The last table completed for the device was for a service with this key and this owner. -/
def LastFilled (i key euid : Int) : History (State τ) (Event τ) → Prop :=
  Since (Unfilled i) (Fills i key euid)

variable [DecidableEq τ] {h : History (State τ) (Event τ)}
  {st st' : State τ} {e : Event τ}

-----------------------------------------------------------------------------------------
-- Whose turn it is to print
-----------------------------------------------------------------------------------------

/-- The text of the device is there, and its table is not complete. -/
def CreateDevicePc.printsTable : CreateDevicePc → Bool
  | .fill (some _) | .count .. | .print .. => true
  | _ => false

omit [DecidableEq τ] in
theorem creator_of_printsLast {frame : Frame} {line : LastLine}
    (prints : frame.printsLast = some line)
    : ∃ f,
        frame = .get f
        ∧ f.pc = .device (.print line.service line.counted line.rows)
        ∧ f.tag = line.device := by
  cases frame with
  | get f =>
      obtain ⟨key, command, permission, euid, tag, ts, pc⟩ := f
      cases pc
      case device pc =>
        cases pc
        case print s n rows =>
          simp only [Frame.printsLast] at prints
          split at prints
          · cases prints
            exact ⟨_, rfl, rfl, rfl⟩
          · cases prints
        all_goals cases prints
      all_goals cases prints
  | _ => cases prints

omit [DecidableEq τ] in
theorem deviceHolds_of_printsTable {f : GetFrame} {pc : CreateDevicePc} (inside : f.pc = .device pc)
    (prints : pc.printsTable = true)
    : (Frame.get f).deviceHolds = some f.tag := by
  have holds : pc.holds = true := by
    cases pc <;> first | rfl | cases prints
  simp only [Frame.deviceHolds, inside, holds, if_true]

omit [DecidableEq τ] in
/-- Lines are printed under the mutex of the device. -/
theorem deviceHolds_of_printsLast {frame : Frame} {line : LastLine}
    (prints : frame.printsLast = some line)
    : frame.deviceHolds = some line.device := by
  obtain ⟨f, rfl, inside, device⟩ := creator_of_printsLast prints
  rw [← device]
  exact deviceHolds_of_printsTable inside rfl

/-- While a thread that completes no table has the mutex, nobody completes one. -/
theorem unfilled_of_holder (run : (machine τ).Run Unheld h st) {t : τ} {i : Int}
    (holds : (st.thread t).frame.deviceHolds = some i)
    (silent : (st.thread t).frame.printsLast = none)
    : Unfilled i h st e := by
  intro u external line _ prints device
  subst device
  obtain rfl := (exclusive_run run).one holds (deviceHolds_of_printsLast prints)
  cases silent.symm.trans prints

omit [DecidableEq τ] in
/-- A receiver prints no lines. -/
theorem unfilled_of_receiver {t : τ} {external : Nat} {f : ReceiveFrame}
    (here : (st.thread t).frame = .receive f) (i : Int)
    : Unfilled i h st (.run t external) := by
  rintro u external' line event prints
  obtain ⟨rfl, -⟩ := Event.run.inj event
  rw [here] at prints
  cases prints

/-- While a thread has the mutex, the others leave the text alone. -/
theorem text_of_holder (run : (machine τ).Run Unheld h st) (step : st.step e = some st') {t : τ}
    {i : Int} (holds : (st.thread t).frame.deviceHolds = some i)
    (rest : ∀ external, e ≠ .run t external)
    : st'.kernel.dm.text i = st.kernel.dm.text i := by
  refine text_of_step (separate_run run) step fun access device texts => ?_
  cases e with
  | run u external =>
      have owner := deviceHolds_of_texts run device texts
      obtain rfl := (exclusive_run run).one holds owner
      exact absurd rfl (rest external)
  | _ => cases device

/-- What was before a step into `ts_create_char_device_file`. -/
theorem create_of_exec {k : Kernel τ} {t : τ} {external : Nat} {f' : GetFrame} {pc' : CreateDevicePc}
    (exec : st.kernel.exec external (st.op t) = some (k, .get f')) (inside : f'.pc = .device pc')
    : pc' = .load
      ∨ ∃ f pc,
          (st.thread t).frame = .get f
          ∧ f.pc = .device pc
          ∧ CreateMove st.kernel f.tag pc (.go pc')
          ∧ f'.tag = f.tag := by
  have call := Kernel.exec_sameCall exec
  cases here : (st.thread t).frame with
  | get f =>
      rw [State.op, here] at exec
      have exec : st.kernel.exec external (tagGet t f) = _ := exec
      cases within : f.pc with
      | device pc =>
          obtain ⟨next, move, frame⟩ := created_of_exec within exec
          cases next with
          | go pc'' =>
              obtain rfl := Frame.get.inj frame
              obtain rfl := GetPc.device.inj inside
              exact .inr ⟨f, pc, rfl, within, move, rfl⟩
          | back =>
              obtain rfl := Frame.get.inj frame
              cases inside
      | decRemaining =>
          have move := getMove_of_exec exec
          rw [within] at move
          cases move
          cases inside
          exact .inl rfl
      | _ =>
          have move := getMove_of_exec exec
          rw [within] at move
          cases move <;> cases inside
  | _ => rw [here] at call; cases call

/-- The device has no text yet while its table is printed. -/
theorem blank_of_printsTable (run : (machine τ).Run Unheld h st)
    : ∀ {t f pc},
        (st.thread t).frame = .get f
        → f.pc = .device pc
        → pc.printsTable = true
        → st.kernel.dm.text f.tag = none := by
  refine run.invariant
    (P := fun _ st => ∀ {t f pc},
      (st.thread t).frame = .get f
      → f.pc = .device pc
      → pc.printsTable = true
      → st.kernel.dm.text f.tag = none)
    (fun here => by cases here) ?_
  intro h st e st' before blank ok step t f' pc' after inside prints
  have step : st.step e = some st' := step
  cases turn_of_step step t with
  | rest rest thread =>
      rw [thread] at after
      have holds : (st.thread t).frame.deviceHolds = some f'.tag := by
        rw [after]
        exact deviceHolds_of_printsTable inside prints
      rw [text_of_holder before step holds rest]
      exact blank after inside prints
  | @enter euid c _ idle thread =>
      rw [thread] at after
      cases c <;> cases after
      cases inside
  | @go external frame event exec thread =>
      rw [thread] at after
      obtain rfl : frame = .get f' := after
      rcases create_of_exec exec inside with rfl | ⟨f, pc, here, within, move, tag⟩
      · cases prints
      · have device : st.device e = (Frame.get f).device := by
          rw [event, State.device, here]
        rw [Frame.device, within] at device
        rw [dm_of_step step, device, tag]
        -- The text is allocated first; counting and printing leave it alone.
        cases move with
        | content =>
            have text := DevManager.text_access (separate_run before) (.newText f.tag) f.tag
            exact text.trans (if_pos rfl)
        | fill => exact blank here within rfl
        | count => exact blank here within rfl
        | print => exact blank here within rfl
        | _ => cases prints

theorem blank_of_printsLast (run : (machine τ).Run Unheld h st) {t : τ} {line : LastLine}
    (prints : (st.thread t).frame.printsLast = some line)
    : st.kernel.dm.text line.device = none := by
  obtain ⟨f, here, inside, device⟩ := creator_of_printsLast prints
  rw [← device]
  exact blank_of_printsTable run here inside rfl

end TagExchange
