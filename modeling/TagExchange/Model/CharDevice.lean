import TagExchange.Model.Texts

/-! The char devices as their readers see them: `ts_open` and `ts_read`, in any number of
sessions, beside the system calls of the module.
-/

namespace TagExchange

open Concurrency

variable {τ : Type}

def ENODEV : Int := 19

-----------------------------------------------------------------------------------------
-- Sessions
-----------------------------------------------------------------------------------------

/-- `struct file` of an open device, with the number of reads that are using it. -/
structure Session where
  privateData : Option Ref
  position : Nat
  readers : Nat

/-- `ts_read`. Every use of `ts->tag` is an access of its own. -/
inductive ReadPc
  | rcuLock
  | tag
  | pointer (i : Int)
  | copy (i : Int) (b : Nat)
  | rcuUnlock (i : Int)
  | lockTag
  | lock (i : Int)
  | transfer
  | unlockTag (r : Int)
  | unlock (i : Int) (r : Int)
  | printTag (r : Int)
  | ret (r : Int)

/-- A call of `ts_read`: `ts` is the pointer it has taken from the session, and `copied` what
`ts_status` holds so far, as the counters of the lines.
-/
structure ReadFrame where
  session : Nat
  ts : Option Ref
  count : Nat
  copied : List (Option Nat)
  pc : ReadPc

namespace ReadFrame

def at_ (f : ReadFrame) (pc : ReadPc) : ReadFrame := { f with pc := pc }

/-- `memcpy` copies the next line of the text. -/
def copyLine (f : ReadFrame) (i : Int) (b : Nat) (buffer : TextBuffer) : ReadFrame :=
  let copied := f.copied ++ [buffer.text.map fun text => text f.copied.length]
  { f with copied, pc := if copied.length < MAX_LEVELS then .copy i b else .rcuUnlock i }

/-- The bytes to copy, from this position of a text of this size. -/
def toCopy (f : ReadFrame) (position size : Nat) : Nat :=
  let count := if position + f.count > size then size - position else f.count
  if count > size then size else count

end ReadFrame

/-- `ts_read`, for a session at this position; a NULL pointer stops it. `strlen` gives the size of
the text that has been copied.
-/
def tsRead [DecidableEq τ] (strlen : List (Option Nat) → Nat) (t : τ) (k : Kernel τ)
    (position external : Nat) (f : ReadFrame)
    : Option (Kernel τ × Nat × ReadFrame) :=
  match f.pc with
  | .rcuLock => some ({ k with rcu := k.rcu.readLock t }, position, f.at_ .tag)
  | .tag => f.ts.map fun s => (k, position, f.at_ (.pointer (k.service s).tag))
  -- `get_tag_status`
  | .pointer i => (k.dm.content i).map fun b => (k, position, f.at_ (.copy i b))
  | .copy i b => some (k, position, f.copyLine i b (k.dm.buffer b))
  | .rcuUnlock _ => some ({ k with rcu := k.rcu.readUnlock t }, position, f.at_ .lockTag)
  | .lockTag => f.ts.map fun s => (k, position, f.at_ (.lock (k.service s).tag))
  -- `mutex_lock_killable` may be interrupted.
  | .lock i =>
      if external ≠ 0 then some (k, position, f.at_ (.ret (-EINTR)))
      else if k.dm.deviceLock i then none
      else some (k.setDm fun dm => dm.access (.lock i), position, f.at_ .transfer)
  | .transfer =>
      if strlen f.copied ≤ position then some (k, position, f.at_ (.unlockTag 0))
      -- `copy_to_user` reports the bytes it has not copied.
      else if external ≠ 0 then some (k, position, f.at_ (.unlockTag (-EFAULT)))
      else
        let count := f.toCopy position (strlen f.copied)
        some (k, position + count, f.at_ (.unlockTag count))
  | .unlockTag r => f.ts.map fun s => (k, position, f.at_ (.unlock (k.service s).tag r))
  | .unlock i r =>
      some (k.setDm fun dm => dm.access (.unlock i), position,
        f.at_ (if r = -EFAULT then .printTag r else .ret r))
  | .printTag r => f.ts.map fun _ => (k, position, f.at_ (.ret r))
  | .ret _ => none

/-- Where a thread is with respect to the char devices. -/
inductive DeviceFrame
  | out (last : Option Int)
  | opening (minor : Int)
  | reading (f : ReadFrame)

-----------------------------------------------------------------------------------------
-- The machine
-----------------------------------------------------------------------------------------

/-- The references to the module that the kernel takes to open a file, and gives back when the file
is closed or not opened after all: `owner` of the `cdev`, and `owner` of `ts_fops`.
-/
def fileOwners : Int := 2

/-- The module with its devices: `cdev` says which devices the kernel knows, and `fileRefs` counts the
references to the module that it has taken for files.
-/
structure DeviceState (τ : Type) where
  base : State τ
  cdev : Int → Bool
  session : Nat → Option Session
  sessions : Nat
  frame : τ → DeviceFrame
  fileRefs : Int

/-- A step of the module itself; the kernel finds a device that is being opened; a thread enters
`ts_read`; the next step of a thread in the driver; a session is closed.
-/
inductive DeviceEvent (τ : Type)
  | base (e : Event τ)
  | lookup (t : τ) (minor : Int)
  | read (t : τ) (n count : Nat)
  | run (t : τ) (external : Nat)
  | close (n : Nat)

/-- The device that a step of a call makes known to the kernel, or takes away from it. -/
def Frame.cdev (external : Nat) : Frame → Option (Int × Bool)
  | get f =>
      match f.pc with
      | .device (.add _) => if external = 0 then some (f.tag, true) else none
      | .device .delete => some (f.tag, false)
      | _ => none
  | ctl f =>
      match f.pc with
      | .destroy .node => some (f.index, false)
      | _ => none
  | _ => none

namespace DeviceState

variable [DecidableEq τ]

def start : DeviceState τ where
  base := .start
  cdev := fun _ => false
  session := fun _ => none
  sessions := 0
  frame := fun _ => .out none
  fileRefs := 0

/-- The module count. -/
def moduleRefs (st : DeviceState τ) : Int :=
  st.base.kernel.moduleRefs + st.fileRefs

/-- The devices that the kernel knows after a step of the module. -/
def cdevAfter (st : DeviceState τ) : Event τ → Int → Bool
  | .run t external =>
      match (st.base.thread t).frame.cdev external with
      | some (i, known) => Function.update st.cdev i known
      | none => st.cdev
  | _ => st.cdev

/-- A thread in the driver makes no system call. -/
def allows (st : DeviceState τ) : Event τ → Bool
  | .call t _ _ =>
      match st.frame t with
      | .out _ => true
      | _ => false
  | _ => true

def setFrame (st : DeviceState τ) (t : τ) (frame : DeviceFrame) : DeviceState τ :=
  { st with frame := Function.update st.frame t frame }

def setSession (st : DeviceState τ) (n : Nat) (file : Option Session) : DeviceState τ :=
  { st with session := Function.update st.session n file }

def setKernel (st : DeviceState τ) (k : Kernel τ) : DeviceState τ :=
  { st with base := { st.base with kernel := k } }

/-- `ts_open`: the service in the slot becomes the session's. The checks of the numbers and of
`i_cdev` are the kernel's to fail.
-/
def tsOpen (st : DeviceState τ) (t : τ) (minor : Int) (external : Nat) : DeviceState τ :=
  if minor < 0 ∨ minor ≥ MAX_TAG_SERVICES ∨ external ≠ 0 then
    { st.setFrame t (.out (some (-ENODEV))) with fileRefs := st.fileRefs - fileOwners }
  else
    { st.setSession st.sessions (some ⟨st.base.kernel.tsm.allTagServices minor, 0, 0⟩) with
      sessions := st.sessions + 1
      frame := Function.update st.frame t (.out (some 0)) }

theorem tsOpen_base (st : DeviceState τ) (t : τ) (minor : Int) (external : Nat)
    : (st.tsOpen t minor external).base = st.base := by
  unfold tsOpen
  split <;> rfl

def step (strlen : List (Option Nat) → Nat) (st : DeviceState τ)
    : DeviceEvent τ → Option (DeviceState τ)
  | .base e =>
      if st.allows e then
        (st.base.step e).map fun base => { st with base, cdev := st.cdevAfter e }
      else
        none
  | .lookup t minor =>
      match st.frame t, (st.base.thread t).frame with
      | .out _, .user _ =>
          if st.cdev minor then
            some { st.setFrame t (.opening minor) with fileRefs := st.fileRefs + fileOwners }
          else
            none
      | _, _ => none
  | .read t n count =>
      match st.frame t, (st.base.thread t).frame, st.session n with
      | .out _, .user _, some file =>
          some ((st.setSession n (some { file with readers := file.readers + 1 })).setFrame t
            (.reading ⟨n, file.privateData, count, [], .rcuLock⟩))
      | _, _, _ => none
  | .run t external =>
      match st.frame t with
      | .out _ => none
      | .opening minor => some (st.tsOpen t minor external)
      | .reading f =>
          match st.session f.session with
          | none => none
          | some file =>
              match f.pc with
              | .ret r =>
                  some ((st.setSession f.session (some { file with readers := file.readers - 1 }))
                    |>.setFrame t (.out (some r)))
              | _ =>
                  (tsRead strlen t st.base.kernel file.position external f).map
                    fun (k, position, f') =>
                      ((st.setKernel k).setSession f.session (some { file with position }))
                        |>.setFrame t (.reading f')
  | .close n =>
      match st.session n with
      | some file =>
          if file.readers = 0 then
            some { st.setSession n none with fileRefs := st.fileRefs - fileOwners }
          else
            none
      | none => none

/-- What an event can do, one constructor for each kind of step. -/
inductive Steps (strlen : List (Option Nat) → Nat) (st : DeviceState τ)
    : DeviceEvent τ → DeviceState τ → Prop
  | base {e base} (allowed : st.allows e = true) (step : st.base.step e = some base)
    : Steps strlen st (.base e) { st with base, cdev := st.cdevAfter e }
  | lookup {t minor last user} (out : st.frame t = .out last)
    (idle : (st.base.thread t).frame = .user user) (known : st.cdev minor = true)
    : Steps strlen st (.lookup t minor)
        { st.setFrame t (.opening minor) with fileRefs := st.fileRefs + fileOwners }
  | opened {t minor external} (here : st.frame t = .opening minor)
    : Steps strlen st (.run t external) (st.tsOpen t minor external)
  | read {t n count last user file} (out : st.frame t = .out last)
    (idle : (st.base.thread t).frame = .user user) (found : st.session n = some file)
    : Steps strlen st (.read t n count)
        ((st.setSession n (some { file with readers := file.readers + 1 })).setFrame t
          (.reading ⟨n, file.privateData, count, [], .rcuLock⟩))
  | run {t external f file k position f'} (here : st.frame t = .reading f)
    (found : st.session f.session = some file)
    (move : tsRead strlen t st.base.kernel file.position external f = some (k, position, f'))
    : Steps strlen st (.run t external)
        (((st.setKernel k).setSession f.session (some { file with position })).setFrame t
          (.reading f'))
  | leave {t external f file r} (here : st.frame t = .reading f)
    (found : st.session f.session = some file) (ret : f.pc = .ret r)
    : Steps strlen st (.run t external)
        ((st.setSession f.session (some { file with readers := file.readers - 1 })).setFrame t
          (.out (some r)))
  | close {n file} (found : st.session n = some file) (unused : file.readers = 0)
    : Steps strlen st (.close n)
        { st.setSession n none with fileRefs := st.fileRefs - fileOwners }

theorem steps_of_step {strlen : List (Option Nat) → Nat} {st st' : DeviceState τ}
    {e : DeviceEvent τ} (step : st.step strlen e = some st')
    : st.Steps strlen e st' := by
  cases e with
  | base e =>
      obtain ⟨allowed, step⟩ := Option.ite_none_right_eq_some.mp step
      obtain ⟨base, inner, rfl⟩ := Option.map_eq_some_iff.mp step
      exact .base allowed inner
  | lookup t minor =>
      simp only [DeviceState.step] at step
      split at step
      · next last user out idle =>
          obtain ⟨known, same⟩ := Option.ite_none_right_eq_some.mp step
          obtain rfl := Option.some.inj same
          exact .lookup out idle known
      · cases step
  | read t n count =>
      simp only [DeviceState.step] at step
      split at step
      · next last user file out idle found =>
          obtain rfl := Option.some.inj step
          exact .read out idle found
      · cases step
  | run t external =>
      simp only [DeviceState.step] at step
      split at step
      · cases step
      · next minor here =>
          obtain rfl := Option.some.inj step
          exact .opened here
      · next f here =>
          split at step
          · cases step
          · next file found =>
              split at step
              · next r ret =>
                  obtain rfl := Option.some.inj step
                  exact .leave here found ret
              · obtain ⟨⟨k, position, f'⟩, move, rfl⟩ := Option.map_eq_some_iff.mp step
                exact .run here found move
  | close n =>
      simp only [DeviceState.step] at step
      split at step
      · next file found =>
          obtain ⟨unused, same⟩ := Option.ite_none_right_eq_some.mp step
          obtain rfl := Option.some.inj same
          exact .close found unused
      · cases step

end DeviceState

/-- The module and its devices as a machine. -/
def charDevices (τ : Type) [DecidableEq τ] (strlen : List (Option Nat) → Nat)
    : Machine (DeviceState τ) (DeviceEvent τ) where
  start := .start
  step := DeviceState.step strlen

-----------------------------------------------------------------------------------------
-- The moves of a reader
-----------------------------------------------------------------------------------------

/-- A step of `ts_read`: what it has found in the shared state, and where it goes. -/
inductive ReadMove (k : Kernel τ) (f : ReadFrame) : ReadPc → ReadFrame → Prop
  | rcuLock : ReadMove k f .rcuLock (f.at_ .tag)
  | tag {s : Ref} (ts : f.ts = some s) : ReadMove k f .tag (f.at_ (.pointer (k.service s).tag))
  | pointer {i : Int} {b : Nat} (found : k.dm.content i = some b)
    : ReadMove k f (.pointer i) (f.at_ (.copy i b))
  | copy {i : Int} {b : Nat} : ReadMove k f (.copy i b) (f.copyLine i b (k.dm.buffer b))
  | rcuUnlock {i : Int} : ReadMove k f (.rcuUnlock i) (f.at_ .lockTag)
  | lockTag {s : Ref} (ts : f.ts = some s)
    : ReadMove k f .lockTag (f.at_ (.lock (k.service s).tag))
  | interrupted {i : Int} : ReadMove k f (.lock i) (f.at_ (.ret (-EINTR)))
  | lock {i : Int} : ReadMove k f (.lock i) (f.at_ .transfer)
  | transfer {r : Int} : ReadMove k f .transfer (f.at_ (.unlockTag r))
  | unlockTag {s : Ref} {r : Int} (ts : f.ts = some s)
    : ReadMove k f (.unlockTag r) (f.at_ (.unlock (k.service s).tag r))
  | fault {i r : Int} : ReadMove k f (.unlock i r) (f.at_ (.printTag r))
  | unlock {i r : Int} : ReadMove k f (.unlock i r) (f.at_ (.ret r))
  | printTag {s : Ref} {r : Int} (ts : f.ts = some s) : ReadMove k f (.printTag r) (f.at_ (.ret r))

/-- Two kernels that differ in their readers and their device mutexes only. -/
structure Kernel.SameMemory (k k' : Kernel τ) : Prop where
  tsm : k'.tsm = k.tsm
  service : k'.service = k.service
  freed : k'.freed = k.freed
  services : k'.services = k.services
  content : k'.dm.content = k.dm.content
  buffer : k'.dm.buffer = k.dm.buffer
  buffers : k'.dm.buffers = k.dm.buffers
  moduleRefs : k'.moduleRefs = k.moduleRefs

theorem Kernel.SameMemory.refl (k : Kernel τ) : k.SameMemory k :=
  ⟨rfl, rfl, rfl, rfl, rfl, rfl, rfl, rfl⟩

variable [DecidableEq τ] {strlen : List (Option Nat) → Nat}

/-- A reader makes one of these moves and changes nothing in memory, by cases on its program
point.
-/
theorem readMove_of_tsRead {t : τ} {k k' : Kernel τ} {position position' external : Nat}
    {f f' : ReadFrame} (move : tsRead strlen t k position external f = some (k', position', f'))
    : ReadMove k f f.pc f' ∧ k.SameMemory k' := by
  obtain ⟨session, ts, count, copied, pc⟩ := f
  cases pc with
  | rcuLock => cases move; exact ⟨.rcuLock, ⟨rfl, rfl, rfl, rfl, rfl, rfl, rfl, rfl⟩⟩
  | tag =>
      obtain ⟨s, found, same⟩ := Option.map_eq_some_iff.mp move
      cases same
      exact ⟨.tag found, .refl _⟩
  | pointer i =>
      obtain ⟨b, found, same⟩ := Option.map_eq_some_iff.mp move
      cases same
      exact ⟨.pointer found, .refl _⟩
  | copy i b => cases move; exact ⟨.copy, .refl _⟩
  | rcuUnlock i => cases move; exact ⟨.rcuUnlock, ⟨rfl, rfl, rfl, rfl, rfl, rfl, rfl, rfl⟩⟩
  | lockTag =>
      obtain ⟨s, found, same⟩ := Option.map_eq_some_iff.mp move
      cases same
      exact ⟨.lockTag found, .refl _⟩
  | lock i =>
      simp only [tsRead] at move
      split at move
      · cases move
        exact ⟨.interrupted, .refl _⟩
      · split at move
        · cases move
        · cases move
          exact ⟨.lock, ⟨rfl, rfl, rfl, rfl, rfl, rfl, rfl, rfl⟩⟩
  | transfer =>
      simp only [tsRead] at move
      split at move
      · cases move
        exact ⟨.transfer, .refl _⟩
      · split at move
        · cases move
          exact ⟨.transfer, .refl _⟩
        · cases move
          exact ⟨.transfer, .refl _⟩
  | unlockTag r =>
      obtain ⟨s, found, same⟩ := Option.map_eq_some_iff.mp move
      cases same
      exact ⟨.unlockTag found, .refl _⟩
  | unlock i r =>
      cases move
      refine ⟨?_, ⟨rfl, rfl, rfl, rfl, rfl, rfl, rfl, rfl⟩⟩
      split
      · exact .fault
      · exact .unlock
  | printTag r =>
      obtain ⟨s, found, same⟩ := Option.map_eq_some_iff.mp move
      cases same
      exact ⟨.printTag found, .refl _⟩
  | ret r => cases move

-----------------------------------------------------------------------------------------
-- Steps and turns
-----------------------------------------------------------------------------------------

variable {st st' : DeviceState τ} {e : DeviceEvent τ}

/-- A step is a step of the module, or it leaves the memory as it is. -/
theorem memory_of_step (step : st.step strlen e = some st')
    : (∃ e₀, e = .base e₀ ∧ st.base.step e₀ = some st'.base)
      ∨ (st.base.kernel.SameMemory st'.base.kernel
        ∧ st'.base.thread = st.base.thread
        ∧ ∀ e₀, e ≠ .base e₀) := by
  cases DeviceState.steps_of_step step with
  | base allowed inner => exact .inl ⟨_, rfl, inner⟩
  | run here found move =>
      exact .inr ⟨(readMove_of_tsRead move).2, rfl, fun _ same => by cases same⟩
  | opened here =>
      rw [DeviceState.tsOpen_base]
      exact .inr ⟨.refl _, rfl, fun _ same => by cases same⟩
  | _ => exact .inr ⟨.refl _, rfl, fun _ same => by cases same⟩

theorem memory_of_driver (step : st.step strlen e = some st') (driver : ∀ e₀, e ≠ .base e₀)
    : st.base.kernel.SameMemory st'.base.kernel := by
  rcases memory_of_step step with ⟨e₀, event, -⟩ | ⟨same, -, -⟩
  · exact absurd event (driver e₀)
  · exact same

/-- The turn of a thread in the driver, by cases on the event. -/
inductive DriverTurn (st st' : DeviceState τ) (e : DeviceEvent τ) (t : τ) : Prop
  | rest (other : ∀ external, e ≠ .run t external) (frame : st'.frame t = st.frame t)
  | out {last : Option Int} (frame : st'.frame t = .out last)
  | opening {minor : Int} (frame : st'.frame t = .opening minor)
  | enter {n count : Nat} {file : Session} (event : e = .read t n count)
    (found : st.session n = some file)
    (frame : st'.frame t = .reading ⟨n, file.privateData, count, [], .rcuLock⟩)
  | move {external : Nat} {f f' : ReadFrame} (event : e = .run t external)
    (here : st.frame t = .reading f) (move : ReadMove st.base.kernel f f.pc f')
    (frame : st'.frame t = .reading f')

theorem driverTurn_of_step (step : st.step strlen e = some st') (t : τ)
    : DriverTurn st st' e t := by
  cases DeviceState.steps_of_step step with
  | base allowed inner => exact .rest (fun _ same => by cases same) rfl
  | @lookup u minor last user out idle known =>
      rcases eq_or_ne t u with rfl | other
      · exact .opening (Function.update_self ..)
      · exact .rest (fun _ same => by cases same) (Function.update_of_ne other ..)
  | @opened u minor external here =>
      rcases eq_or_ne t u with rfl | other
      · unfold DeviceState.tsOpen
        split <;> exact .out (Function.update_self ..)
      · refine .rest (fun _ same => other (by cases same; rfl)) ?_
        unfold DeviceState.tsOpen
        split <;> exact Function.update_of_ne other ..
  | @read u n count last user file out idle found =>
      rcases eq_or_ne t u with rfl | other
      · exact .enter rfl found (Function.update_self ..)
      · exact .rest (fun _ same => by cases same) (Function.update_of_ne other ..)
  | @run u external f file k position f' here found move =>
      rcases eq_or_ne t u with rfl | other
      · exact .move rfl here (readMove_of_tsRead move).1 (Function.update_self ..)
      · exact .rest (fun _ same => other (by cases same; rfl)) (Function.update_of_ne other ..)
  | @leave u external f file r here found ret =>
      rcases eq_or_ne t u with rfl | other
      · exact .out (Function.update_self ..)
      · exact .rest (fun _ same => other (by cases same; rfl)) (Function.update_of_ne other ..)
  | close found unused => exact .rest (fun _ same => by cases same) rfl

end TagExchange
