import TagExchange.Concurrency.Rcu
import TagExchange.Model.Data

/-! The shared state of the module and the atomic operations its code performs on it.
Each operation is one access to shared memory or one call into the kernel; what the code
does next is the continuation stored in the operation.
-/

namespace TagExchange

open Concurrency

/-- A system call: the thread that makes it and how many calls it had made before. -/
abbrev CallId (τ : Type) := τ × Nat

/-- The callbacks given to `call_rcu`, with the call that registered them. -/
inductive Job
  | freeAfterSend (l : Int)
  | resetAwakeCondition
deriving DecidableEq

/-- How far a callback has come: it makes the stores of its job, reads the tag that
selects the mutex, unlocks it, and prints a message.
-/
inductive Stage
  | clear
  | zero
  | tag
  | unlock (i : Int)
  | print
deriving DecidableEq

structure Callback (τ : Type) where
  job : Job
  service : Ref
  stage : Stage
  caller : CallId τ

/-- The callback has still to give its mutex back. -/
def Callback.owes {τ : Type} (b : Callback τ) : Bool :=
  match b.stage with
  | .print => false
  | _ => true

/-- `ts_management`. A mutex is locked or not; which context locked it is not recorded. -/
structure TsManagement where
  firstFreeEntry : Int
  remainingEntries : Nat
  accessLock : Int → Bool
  allTagServices : Int → Option Ref

/-- The text of a char device, as the counter that it prints for each level. -/
abbrev Text := Int → Nat

/-- A text buffer: its text once written, and whether it has been freed. -/
structure TextBuffer where
  text : Option Text
  freed : Bool

/-- `dev_manager`, with the text buffers `content` points into. -/
structure DevManager where
  deviceLock : Int → Bool
  content : Int → Option Nat
  buffer : Nat → TextBuffer
  buffers : Nat

structure Kernel (τ : Type) where
  tsm : TsManagement
  service : Ref → TagService
  freed : Ref → Bool
  services : Nat
  dm : DevManager
  theQueue : List τ
  rcu : Rcu τ (Callback τ)
  signalled : τ → Bool
  moduleRefs : Int
  pages : Int

/-- The atomic operations. Those that wait are not enabled until the wait is over;
`external` returns what code outside the module decides. `oops` has no outcome.
-/
inductive Op (τ α : Type)
  | nop (next : α)
  | tryModuleGet (next : α)
  | leave (t : τ) (put : Bool) (next : α)
  | getZeroedPage (next failed : α)
  | freePages (next : α)
  | external (next : Nat → Option α)
  | mutexLock (i : Int) (next : α)
  | mutexUnlock (i : Int) (next : α)
  | loadSlot (i : Int) (next : Option Ref → α)
  | storeSlot (i : Int) (ts : Option Ref) (next : α)
  | loadFirstFree (next : Int → α)
  | storeFirstFree (i : Int) (next : α)
  | loadRemaining (next : Nat → α)
  | incRemaining (next : α)
  | decRemaining (next : α)
  | load (s : Ref) (next : TagService → α)
  | loadLevel (s : Ref) (l : Int) (next : TagLevel → α)
  | store (s : Ref) (w : Write) (next : α)
  | kzalloc (ts : TagService) (next : Ref → α)
  | kfree (s : Ref) (next : α)
  | copyToUser (s : Ref) (l : Int) (n : Nat) (next : List UInt8 → α)
  | deviceLock (i : Int) (next : α)
  | deviceUnlock (i : Int) (next : α)
  | cdev (i : Int) (next : Nat → α)
  | newText (i : Int) (next : α)
  | clearText (i : Int) (next : α)
  | writeText (i : Int) (text : Text) (next : α)
  | loadText (i : Int) (next : Option Text → α)
  | freeText (i : Int) (next : α)
  | storeText (i : Int) (text : Text) (next : α)
  | wakeUpAll (next : α)
  | prepareToWait (t : τ) (next : Bool → α)
  | schedule (t : τ) (next : α)
  | finishWait (t : τ) (next : α)
  | rcuReadLock (t : τ) (next : α)
  | rcuReadUnlock (t : τ) (next : α)
  | callRcu (callback : Callback τ) (next : α)
  | signalPending (t : τ) (next : Bool → α)
  | oops

namespace Op

variable {τ α β : Type}

/-- Changes what comes after an operation: a routine called inside another one. -/
def map (f : α → β) : Op τ α → Op τ β
  | nop next => .nop (f next)
  | tryModuleGet next => .tryModuleGet (f next)
  | leave t put next => .leave t put (f next)
  | getZeroedPage next failed => .getZeroedPage (f next) (f failed)
  | freePages next => .freePages (f next)
  | external next => .external fun n => (next n).map f
  | mutexLock i next => .mutexLock i (f next)
  | mutexUnlock i next => .mutexUnlock i (f next)
  | loadSlot i next => .loadSlot i fun v => f (next v)
  | storeSlot i ts next => .storeSlot i ts (f next)
  | loadFirstFree next => .loadFirstFree fun v => f (next v)
  | storeFirstFree i next => .storeFirstFree i (f next)
  | loadRemaining next => .loadRemaining fun v => f (next v)
  | incRemaining next => .incRemaining (f next)
  | decRemaining next => .decRemaining (f next)
  | load s next => .load s fun v => f (next v)
  | loadLevel s l next => .loadLevel s l fun v => f (next v)
  | store s w next => .store s w (f next)
  | kzalloc ts next => .kzalloc ts fun v => f (next v)
  | kfree s next => .kfree s (f next)
  | copyToUser s l n next => .copyToUser s l n fun v => f (next v)
  | deviceLock i next => .deviceLock i (f next)
  | deviceUnlock i next => .deviceUnlock i (f next)
  | cdev i next => .cdev i fun v => f (next v)
  | newText i next => .newText i (f next)
  | clearText i next => .clearText i (f next)
  | writeText i text next => .writeText i text (f next)
  | loadText i next => .loadText i fun v => f (next v)
  | freeText i next => .freeText i (f next)
  | storeText i text next => .storeText i text (f next)
  | wakeUpAll next => .wakeUpAll (f next)
  | prepareToWait t next => .prepareToWait t fun v => f (next v)
  | schedule t next => .schedule t (f next)
  | finishWait t next => .finishWait t (f next)
  | rcuReadLock t next => .rcuReadLock t (f next)
  | rcuReadUnlock t next => .rcuReadUnlock t (f next)
  | callRcu callback next => .callRcu callback (f next)
  | signalPending t next => .signalPending t fun v => f (next v)
  | oops => .oops

end Op

namespace Kernel

variable {τ α : Type} [DecidableEq τ]

def setTsm (k : Kernel τ) (f : TsManagement → TsManagement) : Kernel τ :=
  { k with tsm := f k.tsm }

def setDm (k : Kernel τ) (f : DevManager → DevManager) : Kernel τ :=
  { k with dm := f k.dm }

/-- Changes the buffer that `content[i]` points to; the pointer stays as it is. -/
def onContent (k : Kernel τ) (i : Int) (change : TextBuffer → TextBuffer) : Kernel τ :=
  match k.dm.content i with
  | some b =>
      k.setDm fun dm => { dm with buffer := Function.update dm.buffer b (change (dm.buffer b)) }
  | none => k

/-- Points `content[i]` to a new buffer. -/
def newContent (k : Kernel τ) (i : Int) (text : Option Text) : Kernel τ :=
  k.setDm fun dm =>
    { dm with
      content := Function.update dm.content i (some dm.buffers)
      buffer := Function.update dm.buffer dm.buffers ⟨text, false⟩
      buffers := dm.buffers + 1 }

/-- Performs an operation. `external` is the value that code outside the module returns
in this step: what an allocator or a copy routine reports.
-/
def exec (k : Kernel τ) (external : Nat) : Op τ α → Option (Kernel τ × α)
  | .nop next => some (k, next)
  | .tryModuleGet next => some ({ k with moduleRefs := k.moduleRefs + 1 }, next)
  | .leave t put next =>
      some ({ k with
        moduleRefs := if put then k.moduleRefs - 1 else k.moduleRefs
        signalled := Function.update k.signalled t false }, next)
  | .getZeroedPage next failed =>
      if external = 0 then some ({ k with pages := k.pages + 1 }, next) else some (k, failed)
  | .freePages next => some ({ k with pages := k.pages - 1 }, next)
  | .external next => (next external).map fun a => (k, a)
  | .mutexLock i next =>
      if k.tsm.accessLock i then none
      else
        some (k.setTsm fun m =>
          { m with accessLock := Function.update m.accessLock i true }, next)
  | .mutexUnlock i next =>
      some (k.setTsm fun m =>
        { m with accessLock := Function.update m.accessLock i false }, next)
  | .loadSlot i next => some (k, next (k.tsm.allTagServices i))
  | .storeSlot i ts next =>
      some (k.setTsm fun m =>
        { m with allTagServices := Function.update m.allTagServices i ts }, next)
  | .loadFirstFree next => some (k, next k.tsm.firstFreeEntry)
  | .storeFirstFree i next => some (k.setTsm fun m => { m with firstFreeEntry := i }, next)
  | .loadRemaining next => some (k, next k.tsm.remainingEntries)
  | .incRemaining next =>
      some (k.setTsm fun m =>
        { m with remainingEntries := atomicInc m.remainingEntries }, next)
  | .decRemaining next =>
      some (k.setTsm fun m =>
        { m with remainingEntries := atomicDec m.remainingEntries }, next)
  | .load s next => some (k, next (k.service s))
  | .loadLevel s l next => some (k, next ((k.service s).level l))
  | .store s w next =>
      some ({ k with service := Function.update k.service s (w.apply (k.service s)) }, next)
  | .kzalloc ts next =>
      some ({ k with
        service := Function.update k.service k.services ts
        services := k.services + 1 }, next k.services)
  | .kfree s next => some ({ k with freed := Function.update k.freed s true }, next)
  | .copyToUser s l n next =>
      some (k, next ((List.range (n - external)).map ((k.service s).level l).message))
  | .deviceLock i next =>
      if k.dm.deviceLock i then none
      else
        some (k.setDm fun dm =>
          { dm with deviceLock := Function.update dm.deviceLock i true }, next)
  | .deviceUnlock i next =>
      some (k.setDm fun dm =>
        { dm with deviceLock := Function.update dm.deviceLock i false }, next)
  | .cdev _ next => some (k, next external)
  | .newText i next => some (k.newContent i none, next)
  | .clearText i next =>
      some (k.setDm fun dm => { dm with content := Function.update dm.content i none }, next)
  | .writeText i text next => some (k.onContent i fun b => { b with text := some text }, next)
  -- A text is copied only where there is memory for the copy.
  | .loadText i next =>
      some (k, next (if external = 0 then (k.dm.content i).bind fun b => (k.dm.buffer b).text
        else none))
  | .freeText i next => some (k.onContent i fun b => { b with freed := true }, next)
  | .storeText i text next => some (k.newContent i (some text), next)
  | .wakeUpAll next => some ({ k with theQueue := [] }, next)
  | .prepareToWait t next =>
      some ({ k with
        theQueue :=
          if k.signalled t then k.theQueue.erase t
          else if t ∈ k.theQueue then k.theQueue
          else t :: k.theQueue }, next (k.signalled t))
  | .schedule t next => if t ∈ k.theQueue ∧ k.signalled t = false then none else some (k, next)
  | .finishWait t next => some ({ k with theQueue := k.theQueue.erase t }, next)
  | .rcuReadLock t next => some ({ k with rcu := k.rcu.readLock t }, next)
  | .rcuReadUnlock t next => some ({ k with rcu := k.rcu.readUnlock t }, next)
  | .callRcu callback next => some ({ k with rcu := k.rcu.callRcu callback }, next)
  | .signalPending t next => some (k, next (k.signalled t))
  | .oops => none

/-- A routine called inside another one performs its own operations. -/
theorem exec_map {β : Type} (k : Kernel τ) (external : Nat) (f : α → β) (op : Op τ α)
    : k.exec external (op.map f) = (k.exec external op).map fun r => (r.1, f r.2) := by
  cases op <;> simp only [Op.map, exec, Option.map_some, Option.map_map, Function.comp_def,
    Option.map_none]
  all_goals split <;> simp

/-- The step of a routine inside another one, taken apart. -/
theorem exec_map_eq_some {β : Type} {k k' : Kernel τ} {external : Nat} {f : α → β}
    {op : Op τ α} {b : β} (step : k.exec external (op.map f) = some (k', b))
    : ∃ a, k.exec external op = some (k', a) ∧ f a = b := by
  rw [exec_map, Option.map_eq_some_iff] at step
  obtain ⟨⟨k₁, a⟩, inner, same⟩ := step
  obtain ⟨rfl, rfl⟩ := Prod.mk.inj same
  exact ⟨a, inner, rfl⟩

end Kernel

end TagExchange
