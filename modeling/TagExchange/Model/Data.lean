import Mathlib.Algebra.Group.Nat.Defs
import Mathlib.Data.List.Basic
import Mathlib.Logic.Function.Basic

/-! The records and constants of `commands.h`, `tag_service.h` and `errno.h`, and every
store the module makes into a `tag_service`.
An `int` is an `Int`, an array indexed by an `int` is a function on `Int`.
-/

namespace TagExchange

-----------------------------------------------------------------------------------------
-- Constants
-----------------------------------------------------------------------------------------

def MAX_TAG_SERVICES : Int := 512
def MAX_LEVELS : Int := 32
def MAX_MESSAGE_SIZE : Nat := 4096

def CREATE_TAG : Int := 0
def OPEN_TAG : Int := 1
def REMOVE_TAG : Int := 2
def AWAKE_ALL : Int := 3

def EVERYONE : Int := 0
def ONLY_OWNER : Int := 1

def IPC_PRIVATE : Int := 0

/-- The value `tag_ctl` returns on success (`SUCCESS` in `usctm.h`). -/
def SUCCESS : Int := 1

def EINTR : Int := 4
def EBADF : Int := 9
def ENOMEM : Int := 12
def EACCES : Int := 13
def EFAULT : Int := 14
def EBUSY : Int := 16
def EINVAL : Int := 22
def ENOSYS : Int := 38
def EBADR : Int := 53
def EMSGSIZE : Int := 90
def ENOKEY : Int := 126

-----------------------------------------------------------------------------------------
-- Records
-----------------------------------------------------------------------------------------

/-- `tag_level`; `messageReady` is true for `READY`. The message buffer is total: the
indices from `MAX_MESSAGE_SIZE` on are the memory behind it, which belongs to other blocks in
`Layout`.
-/
structure TagLevel where
  tag : Int
  messageReady : Bool
  threadWaiting : Nat
  message : Nat → UInt8
  size : Nat

/-- `tag_service`. Its level array is a block of its own, but the two live together. -/
structure TagService where
  level : Int → TagLevel
  threadWaitingMessageCount : Nat
  key : Int
  tag : Int
  permission : Int
  ownerEuid : Int
  awakeRequest : Bool
  lazyDeleted : Bool

/-- The identity of a `tag_service`: each one created has its own, also when the
allocator gives it the address of a freed one.
-/
abbrev Ref := Nat

/-- The key that a creation stores: a private service stores none that can be asked for. -/
def storedKey (key : Int) : Int :=
  if key = IPC_PRIVATE then -1 else key

/-- A service as `tag_get` fills it before publishing it. -/
def TagService.created (key tag permission ownerEuid : Int) : TagService where
  level := fun _ => ⟨tag, false, 0, fun _ => 0, 0⟩
  threadWaitingMessageCount := 0
  key := storedKey key
  tag := tag
  permission := permission
  ownerEuid := ownerEuid
  awakeRequest := false
  lazyDeleted := false

/-- `owner_euid != EUID && permission == ONLY_OWNER`, the test all four calls make. -/
def TagService.denies (ts : TagService) (euid : Int) : Bool :=
  ts.ownerEuid ≠ euid ∧ ts.permission = ONLY_OWNER

-----------------------------------------------------------------------------------------
-- Stores
-----------------------------------------------------------------------------------------

/-- `atomic_inc` through an `atomic_t *` cast: only the low 32 bits of the word change, and
they wrap around.
-/
def atomicInc (n : Nat) : Nat :=
  if n % 2 ^ 32 = 2 ^ 32 - 1 then n - (2 ^ 32 - 1) else n + 1

def atomicDec (n : Nat) : Nat :=
  if n % 2 ^ 32 = 0 then n + (2 ^ 32 - 1) else n - 1

/-- The counter arithmetic is addition and subtraction modulo `2 ^ 32`. -/
theorem atomicInc_mod (n : Nat) : atomicInc n % 2 ^ 32 = (n + 1) % 2 ^ 32 := by
  unfold atomicInc
  split <;> omega

theorem atomicDec_mod (n : Nat) : (atomicDec n + 1) % 2 ^ 32 = n % 2 ^ 32 := by
  unfold atomicDec
  split <;> omega

theorem atomicInc_lt {n : Nat} (h : n < 2 ^ 32) : atomicInc n < 2 ^ 32 := by
  unfold atomicInc
  split <;> omega

theorem atomicDec_lt {n : Nat} (h : n < 2 ^ 32) : atomicDec n < 2 ^ 32 := by
  unfold atomicDec
  split <;> omega

/-- `atomic_read`: the low 32 bits as a signed `int`, here widened to `unsigned long`. -/
def atomicRead (n : Nat) : Nat :=
  if n % 2 ^ 32 < 2 ^ 31 then n % 2 ^ 32 else n % 2 ^ 32 + (2 ^ 64 - 2 ^ 32)

/-- The stores into a `tag_service` and its levels. -/
inductive Write
  | memcpy (l : Int) (n : Nat) (source : Nat → UInt8)
  | terminator (l : Int) (n : Nat)
  | size (l : Int) (n : Nat)
  | messageReady (l : Int) (ready : Bool)
  | memset (l : Int)
  | awakeRequest (yes : Bool)
  | lazyDeleted
  | incCount
  | decCount
  | incLevel (l : Int)
  | decLevel (l : Int)

/-- Changes one level of a service. -/
def TagService.onLevel (ts : TagService) (l : Int) (change : TagLevel → TagLevel) : TagService :=
  { ts with level := Function.update ts.level l (change (ts.level l)) }

@[simp] theorem TagService.onLevel_level (ts : TagService) (l k : Int)
    (change : TagLevel → TagLevel)
    : (ts.onLevel l change).level k = if k = l then change (ts.level k) else ts.level k := by
  rcases eq_or_ne k l with rfl | other
  · simp [onLevel]
  · simp [onLevel, other]

@[simp] theorem TagService.onLevel_tag (ts : TagService) (l : Int)
    (change : TagLevel → TagLevel)
    : (ts.onLevel l change).tag = ts.tag :=
  rfl

@[simp] theorem TagService.onLevel_awakeRequest (ts : TagService) (l : Int)
    (change : TagLevel → TagLevel)
    : (ts.onLevel l change).awakeRequest = ts.awakeRequest :=
  rfl

@[simp] theorem TagService.onLevel_lazyDeleted (ts : TagService) (l : Int)
    (change : TagLevel → TagLevel)
    : (ts.onLevel l change).lazyDeleted = ts.lazyDeleted :=
  rfl

@[simp] theorem TagService.onLevel_count (ts : TagService) (l : Int)
    (change : TagLevel → TagLevel)
    : (ts.onLevel l change).threadWaitingMessageCount = ts.threadWaitingMessageCount :=
  rfl

def Write.apply (ts : TagService) : Write → TagService
  | memcpy l n source =>
      ts.onLevel l fun v =>
        { v with message := fun i => if i < n then source i else v.message i }
  | terminator l n => ts.onLevel l fun v => { v with message := Function.update v.message n 0 }
  | size l n => ts.onLevel l fun v => { v with size := n }
  | messageReady l ready => ts.onLevel l fun v => { v with messageReady := ready }
  | memset l =>
      ts.onLevel l fun v =>
        { v with message := fun i => if i < MAX_MESSAGE_SIZE then 0 else v.message i }
  | awakeRequest yes => { ts with awakeRequest := yes }
  | lazyDeleted => { ts with lazyDeleted := true }
  | incCount => { ts with threadWaitingMessageCount := atomicInc ts.threadWaitingMessageCount }
  | decCount => { ts with threadWaitingMessageCount := atomicDec ts.threadWaitingMessageCount }
  | incLevel l => ts.onLevel l fun v => { v with threadWaiting := atomicInc v.threadWaiting }
  | decLevel l => ts.onLevel l fun v => { v with threadWaiting := atomicDec v.threadWaiting }

-----------------------------------------------------------------------------------------
-- What no store changes
-----------------------------------------------------------------------------------------

@[simp] theorem Write.apply_tag (ts : TagService) (w : Write) : (w.apply ts).tag = ts.tag := by
  cases w <;> rfl

@[simp] theorem Write.apply_key (ts : TagService) (w : Write) : (w.apply ts).key = ts.key := by
  cases w <;> rfl

@[simp] theorem Write.apply_levelTag (ts : TagService) (w : Write) (l : Int)
    : ((w.apply ts).level l).tag = (ts.level l).tag := by
  cases w <;> simp only [apply, TagService.onLevel_level] <;> split <;> rfl

/-- The counter of waiting threads after a store. -/
def Write.onCount (n : Nat) : Write → Nat
  | incCount => atomicInc n
  | decCount => atomicDec n
  | _ => n

@[simp] theorem Write.apply_count (ts : TagService) (w : Write)
    : (w.apply ts).threadWaitingMessageCount = w.onCount ts.threadWaitingMessageCount := by
  cases w <;> rfl

/-- No store takes `lazy_deleted` back. -/
theorem Write.apply_lazyDeleted {ts : TagService} (w : Write) (h : ts.lazyDeleted = true)
    : (w.apply ts).lazyDeleted = true := by
  cases w <;> first | exact h | rfl

end TagExchange
