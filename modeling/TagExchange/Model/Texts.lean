import TagExchange.Model.Calls

/-! What the calls do to the char devices: their mutexes, the pointers to their texts, and the
buffers these are kept in.
-/

namespace TagExchange

open Concurrency

variable {τ α : Type}

-----------------------------------------------------------------------------------------
-- Accesses
-----------------------------------------------------------------------------------------

/-- The operations that change `dev_manager`. -/
inductive DeviceAccess
  | lock (i : Int)
  | unlock (i : Int)
  | newText (i : Int)
  | clearText (i : Int)
  | writeText (i : Int) (text : Text)
  | freeText (i : Int)
  | storeText (i : Int) (text : Text)

namespace DevManager

/-- The text that `content[i]` points to. -/
def text (dm : DevManager) (i : Int) : Option Text :=
  (dm.content i).bind fun b => (dm.buffer b).text

/-- What is copied of the text that `content[i]` points to: nothing where an allocation fails. -/
def copied (dm : DevManager) (i : Int) (external : Nat) : Option Text :=
  if external = 0 then dm.text i else none

theorem text_of_copied {dm : DevManager} {i : Int} {external : Nat} {text : Text}
    (copied : dm.copied i external = some text)
    : dm.text i = some text :=
  (Option.ite_none_right_eq_some.mp copied).2

/-- The buffer that `content[i]` points to. -/
def page (dm : DevManager) (i : Int) : Option TextBuffer :=
  (dm.content i).map dm.buffer

/-- Changes the buffer that `content[i]` points to. -/
def change (dm : DevManager) (i : Int) (f : TextBuffer → TextBuffer) : DevManager :=
  match dm.content i with
  | some b => { dm with buffer := Function.update dm.buffer b (f (dm.buffer b)) }
  | none => dm

/-- Points `content[i]` to a new buffer. -/
def renew (dm : DevManager) (i : Int) (text : Option Text) : DevManager :=
  { dm with
    content := Function.update dm.content i (some dm.buffers)
    buffer := Function.update dm.buffer dm.buffers ⟨text, false⟩
    buffers := dm.buffers + 1 }

/-- Makes `content[i]` a NULL pointer. -/
def clear (dm : DevManager) (i : Int) : DevManager :=
  { dm with content := Function.update dm.content i none }

theorem content_of_clear {dm : DevManager} {i j : Int} {b : Nat}
    (found : (dm.clear i).content j = some b)
    : dm.content j = some b := by
  rcases eq_or_ne j i with rfl | other
  · simp [clear] at found
  · simpa [clear, other] using found

def access (dm : DevManager) : DeviceAccess → DevManager
  | .lock i => { dm with deviceLock := Function.update dm.deviceLock i true }
  | .unlock i => { dm with deviceLock := Function.update dm.deviceLock i false }
  | .newText i => dm.renew i none
  | .clearText i => dm.clear i
  | .writeText i text => dm.change i fun b => { b with text := some text }
  | .freeText i => dm.change i fun b => { b with freed := true }
  | .storeText i text => dm.renew i (some text)

/-- No two devices share a buffer, and all buffers in use have been allocated. -/
structure Separate (dm : DevManager) : Prop where
  bound : ∀ {i b}, dm.content i = some b → b < dm.buffers
  apart : ∀ {i j b}, dm.content i = some b → dm.content j = some b → i = j

@[simp] theorem change_content (dm : DevManager) (i : Int) (f : TextBuffer → TextBuffer)
    : (dm.change i f).content = dm.content := by
  unfold change
  split <;> rfl

@[simp] theorem change_buffers (dm : DevManager) (i : Int) (f : TextBuffer → TextBuffer)
    : (dm.change i f).buffers = dm.buffers := by
  unfold change
  split <;> rfl

@[simp] theorem change_deviceLock (dm : DevManager) (i : Int) (f : TextBuffer → TextBuffer)
    : (dm.change i f).deviceLock = dm.deviceLock := by
  unfold change
  split <;> rfl

/-- Only the buffer of the device changes. -/
theorem change_buffer (dm : DevManager) (i : Int) (f : TextBuffer → TextBuffer) (b : Nat)
    : (dm.change i f).buffer b = if dm.content i = some b then f (dm.buffer b) else dm.buffer b := by
  unfold change
  split
  · next c found =>
      rcases eq_or_ne b c with rfl | other
      · simp [found]
      · simp [found, other, other.symm]
  · next nothing => simp [nothing]

/-- Every access keeps the buffers separate, by cases on the access. -/
theorem Separate.access {dm : DevManager} (x : dm.Separate) (a : DeviceAccess)
    : (dm.access a).Separate := by
  have renewed (i : Int) (text : Option Text) : (dm.renew i text).Separate := by
    refine ⟨fun {j b} found => ?_, fun {j k b} here there => ?_⟩
    · rcases eq_or_ne j i with rfl | other
      · obtain rfl : dm.buffers = b := by simpa [renew] using found
        exact Nat.lt_succ_self _
      · have found : dm.content j = some b := by simpa [renew, other] using found
        exact Nat.lt_succ_of_lt (x.bound found)
    · have fresh {j} (found : dm.content j = some dm.buffers) : False :=
        absurd (x.bound found) (Nat.lt_irrefl _)
      rcases eq_or_ne j i with rfl | hj <;> rcases eq_or_ne k j with rfl | hk
      · rfl
      · obtain rfl : dm.buffers = b := by simpa [renew] using here
        exact (fresh (by simpa [renew, hk] using there)).elim
      · rfl
      · have old : dm.content j = some b := by simpa [renew, hj] using here
        rcases eq_or_ne k i with rfl | hk'
        · obtain rfl : dm.buffers = b := by simpa [renew] using there
          exact (fresh old).elim
        · exact x.apart old (by simpa [renew, hk'] using there)
  have changed (i : Int) (f : TextBuffer → TextBuffer) : (dm.change i f).Separate :=
    ⟨fun found => by simpa using x.bound (by simpa using found),
      fun here there => x.apart (by simpa using here) (by simpa using there)⟩
  cases a with
  | lock i => exact ⟨x.bound, x.apart⟩
  | unlock i => exact ⟨x.bound, x.apart⟩
  | newText i => exact renewed i none
  | clearText i =>
      exact ⟨fun found => x.bound (content_of_clear found), fun here there =>
        x.apart (content_of_clear here) (content_of_clear there)⟩
  | writeText i text => exact changed i fun b => { b with text := some text }
  | freeText i => exact changed i fun b => { b with freed := true }
  | storeText i text => exact renewed i (some text)

/-- The buffer of every device after an access. -/
theorem page_access {dm : DevManager} (x : dm.Separate) (a : DeviceAccess) (i : Int)
    : (dm.access a).page i
      = match a with
        | .newText j => if i = j then some ⟨none, false⟩ else dm.page i
        | .clearText j => if i = j then none else dm.page i
        | .writeText j text =>
            if i = j then (dm.page i).map fun b => { b with text := some text } else dm.page i
        | .freeText j => if i = j then (dm.page i).map fun b => { b with freed := true } else dm.page i
        | .storeText j text => if i = j then some ⟨some text, false⟩ else dm.page i
        | _ => dm.page i := by
  have renewed (j : Int) (text : Option Text)
      : (dm.renew j text).page i = if i = j then some ⟨text, false⟩ else dm.page i := by
    rcases eq_or_ne i j with rfl | other
    · simp [page, renew]
    · rw [if_neg other]
      simp only [page, renew, Function.update_of_ne other]
      cases found : dm.content i with
      | none => rfl
      | some b =>
          have apart : b ≠ dm.buffers := Nat.ne_of_lt (x.bound found)
          simp only [Option.map_some, Function.update_of_ne apart]
  have changed (j : Int) (f : TextBuffer → TextBuffer)
      : (dm.change j f).page i = if i = j then (dm.page i).map f else dm.page i := by
    simp only [page, change_content]
    cases found : dm.content i with
    | none => simp
    | some b =>
        simp only [Option.map_some, change_buffer]
        rcases eq_or_ne i j with rfl | other
        · simp [found]
        · have apart : dm.content j ≠ some b := fun there => other (x.apart found there)
          rw [if_neg apart, if_neg other]
  cases a with
  | lock j => rfl
  | unlock j => rfl
  | newText j => exact renewed j none
  | clearText j =>
      rcases eq_or_ne i j with rfl | other
      · simp [DevManager.access, page, clear]
      · simp [DevManager.access, page, clear, other]
  | storeText j text => exact renewed j _
  | writeText j text => exact changed j _
  | freeText j => exact changed j _

/-- A buffer that a device has is kept by every access, unless the access changes it. -/
theorem buffer_access {dm : DevManager} {a : DeviceAccess} {b : Nat} (bound : b < dm.buffers)
    (spared
      : ∀ j, (a = .freeText j ∨ ∃ text, a = .writeText j text) → dm.content j ≠ some b)
    : (dm.access a).buffer b = dm.buffer b
      ∧ b < (dm.access a).buffers
      ∧ ∀ j, (dm.access a).content j = some b → dm.content j = some b := by
  have renewed (i : Int) (text : Option Text)
      : (dm.renew i text).buffer b = dm.buffer b
        ∧ b < (dm.renew i text).buffers
        ∧ ∀ j, (dm.renew i text).content j = some b → dm.content j = some b := by
    have apart : b ≠ dm.buffers := Nat.ne_of_lt bound
    refine ⟨Function.update_of_ne apart .., Nat.lt_succ_of_lt bound, fun j found => ?_⟩
    rcases eq_or_ne j i with rfl | other
    · have same : dm.buffers = b := by simpa [renew] using found
      exact absurd same.symm apart
    · simpa [renew, other] using found
  have changed (i : Int) (f : TextBuffer → TextBuffer) (other : dm.content i ≠ some b)
      : (dm.change i f).buffer b = dm.buffer b
        ∧ b < (dm.change i f).buffers
        ∧ ∀ j, (dm.change i f).content j = some b → dm.content j = some b := by
    refine ⟨?_, by simpa using bound, fun j found => by simpa using found⟩
    rw [change_buffer, if_neg other]
  cases a with
  | lock i => exact ⟨rfl, bound, fun _ found => found⟩
  | unlock i => exact ⟨rfl, bound, fun _ found => found⟩
  | newText i => exact renewed i none
  | clearText i => exact ⟨rfl, bound, fun _ found => content_of_clear found⟩
  | storeText i text => exact renewed i (some text)
  | writeText i text => exact changed i _ (spared i (.inr ⟨text, rfl⟩))
  | freeText i => exact changed i _ (spared i (.inl rfl))

/-- A buffer that is not freed stays so, unless the access frees it. -/
theorem freed_access {dm : DevManager} {a : DeviceAccess} {b : Nat} (bound : b < dm.buffers)
    (unfreed : (dm.buffer b).freed = false)
    (spared : ∀ j, a = .freeText j → dm.content j ≠ some b)
    : ((dm.access a).buffer b).freed = false ∧ b < (dm.access a).buffers := by
  by_cases writes : ∃ j text, a = .writeText j text
  · obtain ⟨j, text, rfl⟩ := writes
    refine ⟨?_, by simpa [access] using bound⟩
    simp only [access, change_buffer]
    split <;> exact unfreed
  · obtain ⟨same, bound', -⟩ := buffer_access (a := a) bound fun j changes => by
      rcases changes with frees | ⟨text, written⟩
      · exact spared j frees
      · exact absurd ⟨j, text, written⟩ writes
    exact ⟨same ▸ unfreed, bound'⟩

theorem text_eq_page (dm : DevManager) (i : Int) : dm.text i = (dm.page i).bind (·.text) := by
  simp only [DevManager.text, page]
  cases dm.content i <;> rfl

/-- The text of every device after an access. -/
theorem text_access {dm : DevManager} (x : dm.Separate) (a : DeviceAccess) (i : Int)
    : (dm.access a).text i
      = match a with
        | .newText j | .clearText j => if i = j then none else dm.text i
        | .writeText j text => if i = j then (dm.page i).map fun _ => text else dm.text i
        | .storeText j text => if i = j then some text else dm.text i
        | _ => dm.text i := by
  simp only [text_eq_page, page_access x]
  cases a with
  | lock j => rfl
  | unlock j => rfl
  | newText j => by_cases same : i = j <;> simp only [same, if_true, if_false, Option.bind_some]
  | clearText j => by_cases same : i = j <;> simp only [same, if_true, if_false, Option.bind_none]
  | storeText j text => by_cases same : i = j <;> simp only [same, if_true, if_false, Option.bind_some]
  | writeText j text =>
      by_cases same : i = j <;> simp only [same, if_true, if_false]
      cases dm.page j <;> rfl
  | freeText j =>
      by_cases same : i = j <;> simp only [same, if_true, if_false]
      cases dm.page j <;> rfl

end DevManager

/-- The change of `dev_manager` that an operation makes. -/
def Op.device : Op τ α → Option DeviceAccess
  | deviceLock i _ => some (.lock i)
  | deviceUnlock i _ => some (.unlock i)
  | newText i _ => some (.newText i)
  | clearText i _ => some (.clearText i)
  | writeText i text _ => some (.writeText i text)
  | freeText i _ => some (.freeText i)
  | storeText i text _ => some (.storeText i text)
  | _ => none

/-- An operation changes `dev_manager` by its access, by cases on the operation. -/
theorem Kernel.exec_dm [DecidableEq τ] {k k' : Kernel τ} {external : Nat} {op : Op τ α} {a : α}
    (step : k.exec external op = some (k', a))
    : k'.dm = match op.device with
        | some access => k.dm.access access
        | none => k.dm := by
  cases op <;> simp only [exec, Option.some.injEq, Prod.mk.injEq, Option.ite_none_left_eq_some,
    Option.map_eq_some_iff, reduceCtorEq] at step
  case external => obtain ⟨_, -, rfl, -⟩ := step; rfl
  case mutexLock => obtain ⟨-, rfl, -⟩ := step; rfl
  case deviceLock => obtain ⟨-, rfl, -⟩ := step; rfl
  case schedule => obtain ⟨-, rfl, -⟩ := step; rfl
  case getZeroedPage =>
    split at step <;> obtain ⟨rfl, -⟩ := Prod.mk.inj (Option.some.inj step) <;> rfl
  all_goals obtain ⟨rfl, -⟩ := step
  case writeText i text _ =>
    simp only [Op.device, onContent, DevManager.access, DevManager.change]
    cases k.dm.content i <;> rfl
  case freeText i _ =>
    simp only [Op.device, onContent, DevManager.access, DevManager.change]
    cases k.dm.content i <;> rfl
  all_goals rfl

/-- A mutex of a device is taken only when it is free. -/
theorem Kernel.exec_deviceLock [DecidableEq τ] {k k' : Kernel τ} {external : Nat} {op : Op τ α}
    {a : α} (step : k.exec external op = some (k', a)) {i : Int} (locks : op.device = some (.lock i))
    : k.dm.deviceLock i = false := by
  cases op <;> cases locks
  obtain ⟨free, -⟩ := Option.ite_none_left_eq_some.mp step
  simpa using free

-----------------------------------------------------------------------------------------
-- The accesses of the calls
-----------------------------------------------------------------------------------------

/-- Where a receiver stands inside `update_chrdev`. -/
def ReceivePc.update : ReceivePc → Option UpdatePc
  | .entered pc | .left _ pc => some pc
  | _ => none

def UpdatePc.device : UpdatePc → Option DeviceAccess
  | .lock i _ => some (.lock i)
  | .free i _ => some (.freeText i)
  | .assign i text => some (.storeText i text)
  | .unlock i => some (.unlock i)
  | .check | .load | .waiting _ | .index _ _ | .read _ _ | .oops => none

/-- The access of a call at each program point. -/
def Frame.device : Frame → Option DeviceAccess
  | get f =>
      match f.pc with
      | .device (.lock _) => some (.lock f.tag)
      | .device (.content _) => some (.newText f.tag)
      | .device .noContent => some (.clearText f.tag)
      | .device (.write text) => some (.writeText f.tag text)
      | .device (.unlock _) => some (.unlock f.tag)
      | _ => none
  | receive f => f.pc.update.bind UpdatePc.device
  | ctl f =>
      match f.pc with
      | .destroy .lock => some (.lock f.index)
      | .destroy .content => some (.freeText f.index)
      | .destroy .unlock => some (.unlock f.index)
      | _ => none
  | _ => none

/-- These are all the accesses, by cases on the program point. -/
theorem op_device (c : CallId τ) (frame : Frame) : (frame.op c).device = frame.device := by
  cases frame with
  | user last => rfl
  | get f =>
      obtain ⟨key, command, permission, euid, tag, ts, pc⟩ := f
      cases pc
      case find pc => cases pc <;> rfl
      case device pc => cases pc using CreateDevicePc.points <;> rfl
      all_goals rfl
  | send f =>
      obtain ⟨tag, level, buffer, size, euid, realSize, stored, ts, pc⟩ := f
      cases pc <;> rfl
  | receive f =>
      obtain ⟨tag, level, buffer, size, euid, ts, realSize, interrupted, copied, pc⟩ := f
      cases pc
      case entered pc => cases pc <;> rfl
      case left x pc => cases pc <;> rfl
      all_goals rfl
  | ctl f =>
      obtain ⟨tag, command, euid, ts, index, awakened, pc⟩ := f
      cases pc
      case find pc => cases pc <;> rfl
      case destroy pc => cases pc <;> rfl
      all_goals rfl

variable [DecidableEq τ]

/-- The change of `dev_manager` that an event makes. -/
def State.device (st : State τ) : Event τ → Option DeviceAccess
  | .run t _ => (st.thread t).frame.device
  | _ => none

/-- Only system calls change `dev_manager`. -/
theorem dm_of_step {st st' : State τ} {e : Event τ} (step : st.step e = some st')
    : st'.kernel.dm = match st.device e with
        | some access => st.kernel.dm.access access
        | none => st.kernel.dm := by
  cases State.steps_of_step step with
  | @run t external k frame exec =>
      have dm := Kernel.exec_dm exec
      rw [State.op, op_device] at dm
      exact dm
  | @softirq n b k next ready exec =>
      have dm := Kernel.exec_dm exec
      obtain ⟨job, s, stage, caller⟩ := b
      cases job <;> cases stage <;> exact dm
  | _ => rfl

theorem separate_run {G : Guard (State τ) (Event τ)} {h : History (State τ) (Event τ)}
    {st : State τ} (run : (machine τ).Run G h st)
    : st.kernel.dm.Separate := by
  refine run.invariant (P := fun _ st => st.kernel.dm.Separate) ⟨nofun, nofun⟩ ?_
  intro h st e st' _ x _ step
  rw [dm_of_step step]
  split
  · exact x.access _
  · exact x

end TagExchange
