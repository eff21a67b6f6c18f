import TagExchange.CStrings.Block
import TagExchange.CStrings.Decimal
import TagExchange.Model.Kernel

/-! The text of a char device character by character: how `ts_create_char_device_file` builds it
and how `update_chrdev` rewrites it. What an allocated or an automatic array holds at first is an
argument.
-/

namespace TagExchange

open CStrings

def BUFSIZE : Nat := 4096

def tab : Char := Char.ofNat 9

def newline : Char := Char.ofNat 10

/-- `header`. -/
def header : List Char :=
  ['K', 'E', 'Y', tab, 'E', 'U', 'I', 'D', tab, 'L', 'E', 'V', 'E', 'L', tab, '#', 'T', 'H', 'R', 'E',
    'A', 'D', 'S', newline]

/-- The indices of the levels, in the order of the loop. -/
def levels : List Int := (List.range MAX_LEVELS.toNat).map Int.ofNat

/-- What the format of a line prints. -/
def row (key euid l : Int) (count : Nat) : List Char :=
  printInt key ++ tab :: printInt euid ++ tab :: printInt l ++ tab :: printNat count ++ [newline]

/-- The text that a device is meant to have. -/
def render (key euid : Int) (text : Text) : List Char :=
  header ++ levels.flatMap fun l => row key euid l (text l)

-----------------------------------------------------------------------------------------
-- Creation
-----------------------------------------------------------------------------------------

/-- The loop of `countCharsOfNumber`. -/
def countDigits (n : Nat) : Nat :=
  if n = 0 then 0 else countDigits (n / 10) + 1

def countCharsOfNumber (n : Int) : Nat :=
  if n = 0 then 1 else (if n < 0 then 1 else 0) + countDigits n.natAbs

namespace Long

/-- A division takes the last digit of a `long` away, whatever its sign. -/
theorem natAbs_div_ten (n : Int64) : (n / 10).toInt.natAbs = n.toInt.natAbs / 10 := by
  rw [Int64.toInt_div_of_ne_right n 10 (by decide), Int.natAbs_tdiv]
  rfl

/-- The loop of `countCharsOfNumber` on a `long`: the division truncates towards zero. -/
def countDigits (n : Int64) (count : Int32) : Int32 :=
  if n = 0 then count else countDigits (n / 10) (count + 1)
termination_by n.toInt.natAbs
decreasing_by
  have some_ : n.toInt ≠ 0 := fun zero => ‹¬ n = 0› (Int64.toInt_inj.mp zero)
  rw [natAbs_div_ten]
  omega

/-- `countCharsOfNumber` on a `long`. The most negative one is its own negation. -/
def countCharsOfNumber (n : Int64) : Int32 :=
  if n = 0 then 1
  else if n < 0 then countDigits (-n) 1
  else countDigits n 0

end Long

/-- The cast of an `unsigned long` to `long`. -/
def toLong (n : Nat) : Int := if n < 2 ^ 63 then n else n - 2 ^ 64

/-- The bound that `snprintf` gets for a line, from the counter whose characters were counted. -/
def lineSize (euid : Int) (counted : Nat) : Nat :=
  countCharsOfNumber MAX_TAG_SERVICES + countCharsOfNumber euid + countCharsOfNumber MAX_LEVELS
    + countCharsOfNumber (toLong counted) + 5

/-- The loop of `ts_create_char_device_file`, with the array `line` and the text so far. The counter
of a level is read twice: for the bound of its line, and to be printed.
-/
def appendLines (key euid : Int) (counted text : Text) : List Int → Block → Block → Option Block
  | [], _, content => some content
  | l :: rest, line, content => do
      let line ← snprintf line (lineSize euid (counted l)) (row key euid l (text l))
      let size ← CStrings.strlen line
      let content ← strncat content line size
      appendLines key euid counted text rest line content

/-- The text that `ts_create_char_device_file` leaves in `content`. -/
def tsCreateCharDeviceText (foundContent foundLine : Nat → Char) (key euid : Int)
    (counted text : Text)
    : Option Block := do
  let content ← strncpy (fresh foundContent BUFSIZE) (header ++ [nul]) header.length
  appendLines key euid counted text levels (fresh foundLine 100) content

-----------------------------------------------------------------------------------------
-- Update
-----------------------------------------------------------------------------------------

/-- The first loop of `update_chrdev`, from an index with its character: how many line ends it has
still to find, and what stands behind the index.
-/
def findNewline : Block → Nat → Nat → Char → Option (Nat × Char)
  | _, 0, i, ch => some (i, ch)
  | [], _ + 1, i, ch => if ch = nul then some (i, ch) else none
  | next :: rest, wanted + 1, i, ch =>
      if ch = nul then some (i, ch)
      else findNewline rest (if next = newline then wanted else wanted + 1) (i + 1) next

/-- The second loop, from an index with its character: it returns `before_token`. -/
def findTab (buffer : Block) : Nat → Char → Option Nat
  | 0, _ => some 1
  | i + 1, ch =>
      if ch = tab then some (i + 2) else (buffer[i]?).bind fun ch => findTab buffer i ch

/-- What `update_chrdev` finds in the blocks it allocates, and in its array `waiting`. -/
structure Found where
  temp : Nat → Char
  after : Nat → Char
  before : Nat → Char
  final : Nat → Char
  waiting : Nat → Char

/-- The text that `update_chrdev` puts in the place of `content`, for the counter of a level. The
length given to the first `strncpy` is a `size_t`.
-/
def updateChrdevText (found : Found) (content : Block) (level threadWaiting : Nat) : Option Block := do
  let contentSize ← CStrings.strlen content
  let temp ← memcpy (fresh found.temp BUFSIZE) content contentSize
  let (i, ch) ← findNewline (temp.drop 1) (level + 2) 0 'a'
  let after ← strncpy (fresh found.after (BUFSIZE / 2)) (temp.drop i)
    ((contentSize + 1 + 2 ^ 64 - i) % 2 ^ 64)
  let beforeToken ← findTab temp i ch
  let before ← strncpy (fresh found.before (beforeToken + 1)) temp beforeToken
  let before ← write before beforeToken [nul]
  let final ← strncat (fresh found.final BUFSIZE) before (BUFSIZE / 2)
  let waiting ← sprintf (fresh found.waiting 10) (printNat (atomicRead threadWaiting))
  let final ← strncat final waiting (BUFSIZE / 2)
  strncat final after (BUFSIZE / 2)

-----------------------------------------------------------------------------------------
-- Reading
-----------------------------------------------------------------------------------------

/-- The most that the kernel lets a read ask for. -/
def MAX_RW_COUNT : Nat := 2 ^ 31 - 4096

/-- A call of `ts_read`: where the cursor stands, the bytes asked for, the bytes copied to the user,
the value returned, and where the cursor goes.
-/
structure Piece where
  position : Nat
  count : Nat
  bytes : List Char
  result : Nat
  next : Nat

/-- `ts_read` on a device whose text nobody changes. The sum of the cursor and `count` has no sign. -/
def tsReadText (foundStatus : Nat → Char) (content : Block) (position count : Nat) : Option Piece := do
  let status ← memcpy (fresh foundStatus BUFSIZE) content BUFSIZE
  let size ← CStrings.strlen status
  if size ≤ position then
    some ⟨position, count, [], 0, position⟩
  else
    let clamped := if (position + count) % 2 ^ 64 > size then size - position else count
    let clamped := if clamped > size then size else clamped
    some ⟨position, count, status.take clamped, clamped, position + clamped⟩

/-- Calls of `ts_read` one after the other in a session, from a position of its cursor on. -/
def tsReadTexts (foundStatus : Nat → Nat → Char) (content : Block)
    : Nat → List Nat → Option (List Piece)
  | _, [] => some []
  | position, count :: counts => do
      let piece ← tsReadText (foundStatus 0) content position count
      let pieces ← tsReadTexts (fun n => foundStatus (n + 1)) content piece.next counts
      some (piece :: pieces)

end TagExchange
