import TagExchange.Model.Frames

/-! The routines that the system calls share: the search for a free entry, and the three
functions of the device driver that create, destroy and rewrite a char device.
-/

namespace TagExchange

/-- What a routine does after an operation: go on, or return. -/
inductive Then (π ρ : Type)
  | go (pc : π)
  | back (r : ρ)

variable {τ : Type}

/-- `find_first_entry_available` returns the hint if its entry is free, else it looks for
the first free entry and makes that the hint.
-/
def findFirstEntryAvailable : FindPc → Op τ (Then FindPc Int)
  | .hint => .loadFirstFree fun i => .go (.probe i)
  | .probe i => .loadSlot i fun ts => .go (if ts.isNone then .result else .full)
  | .full => .loadRemaining fun n => if n = 0 then .back (-1) else .go (.scan 0)
  | .scan i =>
      .loadSlot i fun ts =>
        if ts.isNone then .go (.store i)
        else if i + 1 < MAX_TAG_SERVICES then .go (.scan (i + 1))
        else .go .result
  | .store i => .storeFirstFree i (.go .result)
  | .result => .loadFirstFree fun i => .back i

/-- `hash_function`: the remainder has the sign of the key, as in C. -/
def hashFunction (key : Int) : Int :=
  key.tmod MAX_TAG_SERVICES

theorem hashFunction_lt (key : Int) : hashFunction key < MAX_TAG_SERVICES :=
  Int.tmod_lt_of_pos key (by decide)

/-- A negative key hashes to an index only where the number of entries divides it. -/
theorem hashFunction_nonneg_iff (key : Int)
    : 0 ≤ hashFunction key ↔ 0 ≤ key ∨ MAX_TAG_SERVICES ∣ key := by
  rw [hashFunction, Int.tmod_eq_emod]
  split
  · next index =>
      refine iff_of_true ?_ index
      simpa using Int.emod_nonneg key (by decide : MAX_TAG_SERVICES ≠ 0)
  · next other =>
      refine iff_of_false ?_ other
      have bound := Int.emod_lt_of_pos key (show 0 < MAX_TAG_SERVICES by decide)
      simp only [MAX_TAG_SERVICES] at bound ⊢
      omega

/-- The counters whose characters have been counted, for the bounds of the lines. -/
def countedCounters (rows : List (Nat × Nat)) : Text :=
  fun l => (rows.map Prod.fst).getD l.toNat 0

/-- The counters that the lines print. -/
def printedCounters (rows : List (Nat × Nat)) : Text :=
  fun l => (rows.map Prod.snd).getD l.toNat 0

/-- `ts_create_char_device_file`. It reads the owner first, which does not change, and each counter
twice; the text is written in one step, when all lines are printed.
-/
def tsCreateCharDeviceFile (tagMinor : Int) : CreateDevicePc → Op τ (Then CreateDevicePc Unit)
  | .load => .loadSlot tagMinor fun ts => .go (.lock ts)
  | .lock ts => .deviceLock tagMinor (.go (.add ts))
  | .add ts => .cdev tagMinor fun err => .go (if err = 0 then .node ts else .unlock false)
  -- `device_create` fails, or it succeeds and the `kmalloc` behind it fails.
  | .node ts =>
      .external fun err =>
        some (.go (if err = 0 then .content ts else if err = 1 then .unlock true else .noContent))
  | .content ts => .newText tagMinor (.go (.fill ts))
  -- The pointers are not checked: `content` is NULL without memory, `ts` once the service has been
  -- removed.
  | .noContent => .clearText tagMinor (.go .oops)
  | .fill none | .oops => .oops
  | .fill (some s) => .load s fun _ => .go (.count s [])
  | .count s rows => .loadLevel s rows.length fun v => .go (.print s v.threadWaiting rows)
  | .print s n rows =>
      .loadLevel s rows.length fun v =>
        let rows := rows ++ [(n, v.threadWaiting)]
        .go (if rows.length < MAX_LEVELS.toNat then .count s rows else .write (printedCounters rows))
  | .write text => .writeText tagMinor text (.go (.unlock false))
  | .unlock failed => .deviceUnlock tagMinor (if failed then .go .delete else .back ())
  | .delete => .cdev tagMinor fun _ => .back ()

/-- `ts_destroy_char_device_file`. -/
def tsDestroyCharDeviceFile (tagMinor : Int) : DestroyDevicePc → Op τ (Then DestroyDevicePc Unit)
  | .lock => .deviceLock tagMinor (.go .node)
  | .node => .cdev tagMinor fun _ => .go .content
  | .content => .freeText tagMinor (.go .unlock)
  | .unlock => .deviceUnlock tagMinor (.back ())

/-- `update_chrdev`. `ts->tag` does not change after creation and is read once here. The text is
copied without a check, of `content` or of what `kmalloc` returns.
-/
def updateChrdev (tagMinor level : Int) : UpdatePc → Op τ (Then UpdatePc Unit)
  | .check =>
      .nop (if tagMinor > MAX_TAG_SERVICES ∨ tagMinor < -1 ∨ level > MAX_LEVELS ∨ level < 0
        then .back () else .go .load)
  | .load =>
      .loadSlot tagMinor fun
        | none => .back ()
        | some s => .go (.waiting s)
  | .waiting s => .loadLevel s level fun v => .go (.index s (atomicRead v.threadWaiting))
  | .index s n => .load s fun ts => .go (.lock ts.tag n)
  | .lock i n => .deviceLock i (.go (.read i n))
  | .read i n =>
      .loadText i fun
        | none => .go .oops
        | some text => .go (.free i (Function.update text level n))
  | .free i text => .freeText i (.go (.assign i text))
  | .assign i text => .storeText i text (.go (.unlock i))
  | .unlock i => .deviceUnlock i (.back ())
  | .oops => .oops

end TagExchange
