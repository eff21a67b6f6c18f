import TagExchange.Concurrency.HandOff
import TagExchange.Model.Kernel

/-! The life of a service and its mutex, as a protocol between views.
A view is what a system call may rely on at a program point: the service pointer it holds,
the mutex it owns, and what it has put into the service. The protocol has no program
points; the code is shown to follow it elsewhere.
-/

namespace TagExchange.Protocol

open Concurrency

variable {τ : Type}

/-- The shared state the protocol is about. Waiting counters are not part of it. -/
structure Core (τ : Type) where
  slot : Int → Option Ref
  locked : Int → Bool
  service : Ref → TagService
  freed : Ref → Bool
  services : Nat
  callbacks : List (Callback τ)

/-- The protocol's view of a system call. The `i` is the tag whose mutex is meant. -/
inductive View
  /-- Holds no service pointer and no mutex. -/
  | outside
  /-- Holds a pointer loaded from slot `i`, without the mutex. -/
  | known (s : Ref) (i : Int)
  /-- Owns the mutex; has not tested `lazy_deleted`, or no longer relies on the test. -/
  | checking (s : Ref) (i : Int)
  /-- Owns the mutex of a registered service. -/
  | inside (s : Ref) (i : Int)
  /-- Writes a message into a level that is not `READY`. -/
  | filling (s : Ref) (i l : Int)
  /-- Has made the level `READY`. -/
  | posted (s : Ref) (i l : Int)
  /-- Has taken the message back; its bytes are still there. -/
  | clearing (s : Ref) (i l : Int)
  /-- Has set `awake_request`. -/
  | waking (s : Ref) (i : Int)
  /-- Has set `lazy_deleted` and owns the mutex. -/
  | deleting (s : Ref) (i : Int)
  /-- Has set `lazy_deleted`; the service is still in its slot. -/
  | removing (s : Ref) (i : Int)
  /-- Has taken the service out of its slot. -/
  | unlinked (s : Ref)
  /-- Owns the mutex and nothing else. -/
  | owning (i : Int)
  /-- Owns the mutex of a free slot. -/
  | vacant (i : Int)
  /-- Has filled a service for the free slot and not published it. -/
  | fresh (s : Ref) (i : Int)
  /-- Outside the protocol. -/
  | stray

namespace View

/-- The tag whose mutex the view owns. -/
def lock : View → Option Int
  | checking _ i | inside _ i | filling _ i _ | posted _ i _ | clearing _ i _ | waking _ i
  | deleting _ i | owning i | vacant i | fresh _ i => some i
  | outside | known _ _ | removing _ _ | unlinked _ | stray => none

/-- The service the view points to. -/
def service : View → Option Ref
  | known s _ | checking s _ | inside s _ | filling s _ _ | posted s _ _ | clearing s _ _
  | waking s _ | deleting s _ | removing s _ | unlinked s | fresh s _ => some s
  | outside | owning _ | vacant _ | stray => none

/-- The service the view has marked as deleted and not freed yet. -/
def removes : View → Option Ref
  | deleting s _ | removing s _ | unlinked s => some s
  | _ => none

/-- The level the view has made `READY`. -/
def posts : View → Option (Ref × Int)
  | posted s _ l => some (s, l)
  | _ => none

/-- The level into which the view has put bytes. -/
def soils : View → Option (Ref × Int)
  | filling s _ l | posted s _ l | clearing s _ l => some (s, l)
  | _ => none

/-- The service whose `awake_request` the view has set. -/
def wakes : View → Option Ref
  | waking s _ => some s
  | _ => none

end View

/-- The level that a callback has still to make `NOT_READY`. -/
def posts (b : Callback τ) : Option (Ref × Int) :=
  match b.job, b.stage with
  | .freeAfterSend l, .clear => some (b.service, l)
  | _, _ => none

/-- The level whose bytes a callback has still to wipe. -/
def soils (b : Callback τ) : Option (Ref × Int) :=
  match b.job, b.stage with
  | .freeAfterSend l, .clear => some (b.service, l)
  | .freeAfterSend l, .zero => some (b.service, l)
  | _, _ => none

/-- The service whose `awake_request` a callback has still to reset. -/
def wakes (b : Callback τ) : Option Ref :=
  match b.job, b.stage with
  | .resetAwakeCondition, .clear => some b.service
  | _, _ => none

namespace Core

def store (c : Core τ) (s : Ref) (w : Write) : Core τ :=
  { c with service := Function.update c.service s (w.apply (c.service s)) }

def lock (c : Core τ) (i : Int) : Core τ :=
  { c with locked := Function.update c.locked i true }

def unlock (c : Core τ) (i : Int) : Core τ :=
  { c with locked := Function.update c.locked i false }

def setSlot (c : Core τ) (i : Int) (ts : Option Ref) : Core τ :=
  { c with slot := Function.update c.slot i ts }

def free (c : Core τ) (s : Ref) : Core τ :=
  { c with freed := Function.update c.freed s true }

def create (c : Core τ) (ts : TagService) : Core τ :=
  { c with service := Function.update c.service c.services ts, services := c.services + 1 }

def callRcu (c : Core τ) (b : Callback τ) : Core τ :=
  { c with callbacks := c.callbacks ++ [b] }

def reuse (c : Core τ) (s : Ref) (ts : TagService) : Core τ :=
  { c with service := Function.update c.service s ts }

/-- The tag recorded in a service. -/
def tag (c : Core τ) (s : Ref) : Int := (c.service s).tag

end Core

-----------------------------------------------------------------------------------------
-- The moves
-----------------------------------------------------------------------------------------

/-- A step of one system call: the state and its view before and after. -/
inductive Move (c : Core τ) : View → Core τ → View → Prop
  | stay (v : View) : Move c v c v
  | find {s i} (found : c.slot i = some s) : Move c .outside c (.known s i)
  | astray {v s i} (pointer : v = .known s i ∨ v = .checking s i ∨ v = .deleting s i)
    (other : c.tag s ≠ i)
    : Move c v c .stray
  | lost {c' v'} : Move c .stray c' v'
  -- taking and leaving the mutex
  | enter {i} (free : c.locked i = false) : Move c .outside (c.lock i) (.owning i)
  | acquire {s i} (free : c.locked i = false)
    : Move c (.known s i) (c.lock i) (.checking s i)
  | pass {s i} (alive : (c.service s).lazyDeleted = false)
    : Move c (.checking s i) c (.inside s i)
  | back {s i} : Move c (.inside s i) c (.checking s i)
  | yield {v s i} (owner : v = .checking s i ∨ v = .inside s i) : Move c v c (.owning i)
  | release {i} : Move c (.owning i) (c.unlock i) .outside
  -- a message
  | fill {s i l w} (part : ∃ n source, w = .memcpy l n source)
    : Move c (.inside s i) (c.store s w) (.filling s i l)
  | finish {s i l w} (part : (∃ n, w = .terminator l n) ∨ ∃ n, w = .size l n)
    : Move c (.filling s i l) (c.store s w) (.filling s i l)
  | post {s i l}
    : Move c (.filling s i l) (c.store s (.messageReady l true)) (.posted s i l)
  | deferSend {s i l caller}
    : Move c (.posted s i l) (c.callRcu ⟨.freeAfterSend l, s, .clear, caller⟩) .outside
  | retract {s i l}
    : Move c (.posted s i l) (c.store s (.messageReady l false)) (.clearing s i l)
  | wipe {s i l} : Move c (.clearing s i l) (c.store s (.memset l)) (.owning i)
  -- a wake-up
  | request {s i} : Move c (.inside s i) (c.store s (.awakeRequest true)) (.waking s i)
  | deferAwake {s i caller}
    : Move c (.waking s i) (c.callRcu ⟨.resetAwakeCondition, s, .clear, caller⟩) .outside
  | reset {s i} : Move c (.waking s i) (c.store s (.awakeRequest false)) (.checking s i)
  -- a removal
  | delete {s i} : Move c (.inside s i) (c.store s .lazyDeleted) (.deleting s i)
  | abandon {s i} : Move c (.deleting s i) (c.unlock i) (.removing s i)
  | unlink {s i} : Move c (.removing s i) (c.setSlot i none) (.unlinked s)
  | kfree {s} : Move c (.unlinked s) (c.free s) .outside
  -- a creation
  | vacate {i} (empty : c.slot i = none) : Move c (.owning i) c (.vacant i)
  | refuse {i} : Move c (.vacant i) c (.owning i)
  | create {i key permission euid}
    : Move c (.vacant i) (c.create (TagService.created key i permission euid))
        (.fresh c.services i)
  | publish {s i} : Move c (.fresh s i) (c.setSlot i (some s)) (.owning i)

/-- A step of the `n`-th callback. -/
inductive CallbackMove (c : Core τ) (n : Nat) : Core τ → Prop
  | notReady {s l caller} (here : c.callbacks[n]? = some ⟨.freeAfterSend l, s, .clear, caller⟩)
    : CallbackMove c n { c.store s (.messageReady l false) with
        callbacks := c.callbacks.set n ⟨.freeAfterSend l, s, .zero, caller⟩ }
  | wipe {s l caller} (here : c.callbacks[n]? = some ⟨.freeAfterSend l, s, .zero, caller⟩)
    : CallbackMove c n { c.store s (.memset l) with
        callbacks := c.callbacks.set n ⟨.freeAfterSend l, s, .tag, caller⟩ }
  | reset {s caller} (here : c.callbacks[n]? = some ⟨.resetAwakeCondition, s, .clear, caller⟩)
    : CallbackMove c n { c.store s (.awakeRequest false) with
        callbacks := c.callbacks.set n ⟨.resetAwakeCondition, s, .tag, caller⟩ }
  | skip {s caller} (here : c.callbacks[n]? = some ⟨.resetAwakeCondition, s, .zero, caller⟩)
    : CallbackMove c n { c with
        callbacks := c.callbacks.set n ⟨.resetAwakeCondition, s, .tag, caller⟩ }
  | levelTag {s l caller} (here : c.callbacks[n]? = some ⟨.freeAfterSend l, s, .tag, caller⟩)
    : CallbackMove c n { c with
        callbacks := c.callbacks.set n
          ⟨.freeAfterSend l, s, .unlock ((c.service s).level l).tag, caller⟩ }
  | serviceTag {s caller} (here : c.callbacks[n]? = some ⟨.resetAwakeCondition, s, .tag, caller⟩)
    : CallbackMove c n { c with
        callbacks := c.callbacks.set n ⟨.resetAwakeCondition, s, .unlock (c.tag s), caller⟩ }
  | unlock {job s i caller} (here : c.callbacks[n]? = some ⟨job, s, .unlock i, caller⟩)
    : CallbackMove c n { c.unlock i with callbacks := c.callbacks.eraseIdx n }

end TagExchange.Protocol
