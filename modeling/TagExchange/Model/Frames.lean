import TagExchange.Model.Kernel

/-! The frames of the system calls: arguments, local variables and program point.
A program point names the access to shared memory that the code makes next. At `oops`
the thread has followed a pointer that it has not checked, and never goes on.
-/

namespace TagExchange

/-- `find_first_entry_available`. -/
inductive FindPc
  | hint
  | probe (i : Int)
  | full
  | scan (i : Int)
  | store (i : Int)
  | result
deriving DecidableEq

/-- `ts_create_char_device_file`, with the pointer it loads first, and what it has read of each level
so far: the counter whose characters it counts, and the one that it prints.
-/
inductive CreateDevicePc
  | load
  | lock (ts : Option Ref)
  | add (ts : Option Ref)
  | node (ts : Option Ref)
  | content (ts : Option Ref)
  | noContent
  | fill (ts : Option Ref)
  | count (ts : Ref) (rows : List (Nat × Nat))
  | print (ts : Ref) (n : Nat) (rows : List (Nat × Nat))
  | write (text : Text)
  | unlock (failed : Bool)
  | delete
  | oops

/-- The program points, with that of a creation that has no service to read apart. -/
@[elab_as_elim]
theorem CreateDevicePc.points {motive : CreateDevicePc → Prop}
    (load : motive .load)
    (lock : ∀ ts, motive (.lock ts))
    (add : ∀ ts, motive (.add ts))
    (node : ∀ ts, motive (.node ts))
    (content : ∀ ts, motive (.content ts))
    (noContent : motive .noContent)
    (fillNothing : motive (.fill none))
    (fill : ∀ s, motive (.fill (some s)))
    (count : ∀ s rows, motive (.count s rows))
    (print : ∀ s n rows, motive (.print s n rows))
    (write : ∀ text, motive (.write text))
    (unlock : ∀ failed, motive (.unlock failed))
    (delete : motive .delete)
    (oops : motive .oops)
    (pc : CreateDevicePc)
    : motive pc := by
  cases pc with
  | load => exact load
  | lock ts => exact lock ts
  | add ts => exact add ts
  | node ts => exact node ts
  | content ts => exact content ts
  | noContent => exact noContent
  | fill ts =>
      cases ts with
      | none => exact fillNothing
      | some s => exact fill s
  | count s rows => exact count s rows
  | print s n rows => exact print s n rows
  | write text => exact write text
  | unlock failed => exact unlock failed
  | delete => exact delete
  | oops => exact oops

/-- `ts_destroy_char_device_file`. -/
inductive DestroyDevicePc
  | lock
  | node
  | content
  | unlock
deriving DecidableEq

/-- `update_chrdev`, with the pointer, the index `ts->tag`, the counter and the text that
it has read so far.
-/
inductive UpdatePc
  | check
  | load
  | waiting (ts : Ref)
  | index (ts : Ref) (n : Nat)
  | lock (i : Int) (n : Nat)
  | read (i : Int) (n : Nat)
  | free (i : Int) (text : Text)
  | assign (i : Int) (text : Text)
  | unlock (i : Int)
  | oops

-----------------------------------------------------------------------------------------
-- The four system calls
-----------------------------------------------------------------------------------------

inductive GetPc
  | entry
  | find (pc : FindPc)
  | lock
  | available
  | kzalloc
  | fields
  | publish
  | unlockCreated
  | decRemaining
  | device (pc : CreateDevicePc)
  | print
  | opened
  | loadOpened
  | lazyDeleted
  | permission
  | unlockDenied
  | denied
  | unlock (r : Int)
  | ret (r : Int)
  | oops

structure GetFrame where
  key : Int
  command : Int
  permission : Int
  euid : Int
  tag : Int
  ts : Ref
  pc : GetPc

inductive SendPc
  | entry
  | getPage
  | copyFromUser
  | load
  | lock
  | lazyDeleted
  | permission
  | memcpy
  | terminator
  | size
  | ready
  | waiters
  | wakeUp
  | callRcu
  | notReady
  | memset
  | unlock (r : Int)
  | freePage (r : Int)
  | ret (r : Int) (put : Bool)
  | oops (paged : Bool)
deriving DecidableEq

/-- The user's buffer is the list of its bytes, followed by zeros. Whether it is mapped is not the
sender's choice alone, and comes from outside.
-/
structure SendFrame where
  tag : Int
  level : Int
  buffer : List UInt8
  size : Nat
  euid : Int
  realSize : Nat
  stored : Nat
  ts : Ref
  pc : SendPc

/-- The three ways out of the wait of `tag_receive`. -/
inductive Exit
  | signal
  | awake
  | message
deriving DecidableEq

inductive ReceivePc
  | entry
  | load
  | lazyDeleted
  | permission
  | incCount
  | incLevel
  | entered (pc : UpdatePc)
  | firstReady
  | firstAwake
  | prepare
  | testReady
  | testAwake
  | sleep
  | finish
  | rcuLock
  | signal
  | ready
  | size
  | copy
  | rcuUnlock (x : Exit)
  | decCount (x : Exit)
  | decLevel (x : Exit)
  | left (x : Exit) (pc : UpdatePc)
  | print
  | ret (r : Int)

structure ReceiveFrame where
  tag : Int
  level : Int
  buffer : Bool
  size : Nat
  euid : Int
  ts : Ref
  realSize : Nat
  interrupted : Bool
  copied : List UInt8
  pc : ReceivePc

/-- What `tag_ctl` does after the unlock it is about to make. -/
inductive AfterUnlock
  | ret (r : Int)
  | busy
  | destroy
deriving DecidableEq

inductive CtlPc
  | entry
  | load
  | index
  | lock
  | lazyDeleted
  | permission
  | waiters
  | delete
  | unlockIndex (after : AfterUnlock)
  | unlock (after : AfterUnlock)
  | busy
  | destroyIndex
  | destroy (pc : DestroyDevicePc)
  | unlink
  | find (pc : FindPc)
  | incRemaining
  | kfree
  | awakened
  | request
  | wakeUp
  | callRcu
  | reset
  | ret (r : Int)
deriving DecidableEq

structure CtlFrame where
  tag : Int
  command : Int
  euid : Int
  ts : Ref
  index : Int
  awakened : Nat
  pc : CtlPc
deriving DecidableEq

/-- Where a thread is: in user mode with the value its last call returned, or in a call. -/
inductive Frame
  | user (last : Option Int)
  | get (f : GetFrame)
  | send (f : SendFrame)
  | receive (f : ReceiveFrame)
  | ctl (f : CtlFrame)

end TagExchange
