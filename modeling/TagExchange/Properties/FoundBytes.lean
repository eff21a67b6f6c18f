import TagExchange.CStrings.Yields
import TagExchange.Properties.InitialText

/-! The text of a device and the bytes that were found in the blocks it was built in: it depends on the
byte behind the header, and in every update on the one behind the copy of the text and on the first one
of the new block. Where these end their strings it depends on the calls only.
-/

namespace TagExchange

open CStrings

variable {found : Found} {content : Block} {s t : List Char} {level n : Nat}

-----------------------------------------------------------------------------------------
-- One update of a text
-----------------------------------------------------------------------------------------

/-- `update_chrdev` on the string of a device. -/
def updated (s : List Char) (level threadWaiting : Nat) : Option (List Char) := do
  let (i, ch) ← findNewline ((s ++ [nul]).drop 1) (level + 2) 0 'a'
  let after ← fit (BUFSIZE / 2) (s.drop i)
  let beforeToken ← findTab s i ch
  let final ← fit BUFSIZE ((s.take beforeToken).take (BUFSIZE / 2))
  let waiting ← fit 10 (printNat (atomicRead threadWaiting))
  let final ← fit BUFSIZE (final ++ waiting.take (BUFSIZE / 2))
  fit BUFSIZE (final ++ after.take (BUFSIZE / 2))

/-- The first loop does not go behind the terminator, by induction on the string. -/
theorem findNewline_behind (s rest : List Char) (wanted i : Nat) (ch : Char)
    : findNewline (s ++ nul :: rest) wanted i ch = findNewline (s ++ [nul]) wanted i ch := by
  induction s generalizing wanted i ch with
  | nil =>
      cases wanted with
      | zero => rfl
      | succ wanted =>
          have other : nul ≠ newline := by decide
          rw [List.nil_append, List.nil_append, findNewline, findNewline, if_neg other]
          cases rest <;> rfl
  | cons c s ih =>
      cases wanted with
      | zero => rfl
      | succ wanted =>
          rw [List.cons_append, List.cons_append, findNewline, findNewline, ih]

/-- Where the first loop stops: in the block, behind its start where it starts looking, and not at a
tab. By induction on the block.
-/
theorem findNewline_stops {b : Block} {wanted i j : Nat} {ch c : Char}
    (stops : findNewline b wanted i ch = some (j, c)) (char : wanted = 0 → ch ≠ tab)
    : i ≤ j ∧ j ≤ i + b.length ∧ c ≠ tab ∧ (0 < wanted → ch ≠ nul → i < j) := by
  have terminator : nul ≠ tab := by decide
  have line : newline ≠ tab := by decide
  induction b generalizing wanted i ch with
  | nil =>
      cases wanted with
      | zero =>
          obtain ⟨rfl, rfl⟩ := Prod.mk.inj (Option.some.inj stops)
          exact ⟨Nat.le_refl _, Nat.le_refl _, char rfl, fun more => absurd more (Nat.lt_irrefl 0)⟩
      | succ wanted =>
          rw [findNewline] at stops
          split at stops
          · next ended =>
              obtain ⟨rfl, rfl⟩ := Prod.mk.inj (Option.some.inj stops)
              exact ⟨Nat.le_refl _, Nat.le_refl _, ended ▸ terminator, fun _ more => absurd ended more⟩
          · cases stops
  | cons d b ih =>
      cases wanted with
      | zero =>
          obtain ⟨rfl, rfl⟩ := Prod.mk.inj (Option.some.inj stops)
          exact ⟨Nat.le_refl _, Nat.le_add_right .., char rfl, fun more => absurd more (Nat.lt_irrefl 0)⟩
      | succ wanted =>
          rw [findNewline] at stops
          split at stops
          · next ended =>
              obtain ⟨rfl, rfl⟩ := Prod.mk.inj (Option.some.inj stops)
              exact ⟨Nat.le_refl _, Nat.le_add_right .., ended ▸ terminator,
                fun _ more => absurd ended more⟩
          · have atLine : (if d = newline then wanted else wanted + 1) = 0 → d ≠ tab := by
              intro zero
              split at zero
              · next same => rwa [same]
              · cases zero
            obtain ⟨low, high, other, -⟩ := ih stops atLine
            rw [List.length_cons]
            exact ⟨by omega, by omega, other, fun _ _ => low⟩

/-- The second loop looks only at what stands before its start. -/
theorem findTab_congr {b b' : Block} {i : Nat} (same : ∀ m < i, b[m]? = b'[m]?) (ch : Char)
    : findTab b i ch = findTab b' i ch := by
  induction i generalizing ch with
  | zero => rfl
  | succ i ih =>
      have later (ch : Char) := ih (fun m less => same m (Nat.lt_succ_of_lt less)) ch
      rw [findTab, findTab, same i (Nat.lt_succ_self i)]
      simp only [later]

/-- The second loop stops at most one character behind its start. -/
theorem findTab_le {b : Block} {i token : Nat} {ch : Char} (stops : findTab b i ch = some token)
    : 1 ≤ token ∧ token ≤ i + 1 := by
  induction i generalizing ch with
  | zero =>
      cases stops
      exact ⟨Nat.le_refl _, Nat.le_refl _⟩
  | succ i ih =>
      rw [findTab] at stops
      split at stops
      · cases stops
        exact ⟨by omega, by omega⟩
      · obtain ⟨c, -, stops⟩ := Option.bind_eq_some_iff.mp stops
        have before := ih stops
        exact ⟨before.1, by omega⟩

/-- Away from a tab it stops not behind its start. -/
theorem findTab_le_of_ne {b : Block} {i token : Nat} {ch : Char} (stops : findTab b i ch = some token)
    (char : ch ≠ tab) (some_ : 0 < i)
    : token ≤ i := by
  obtain ⟨i, rfl⟩ := Nat.exists_eq_succ_of_ne_zero (Nat.ne_of_gt some_)
  rw [findTab, if_neg char] at stops
  obtain ⟨c, -, stops⟩ := Option.bind_eq_some_iff.mp stops
  exact (findTab_le stops).2

/-- An update works on the string of its device, where the two characters end the strings. -/
theorem updateChrdevText_yields (holds : Holds content s) (size : content.length = BUFSIZE)
    (some_ : s ≠ []) (terminated : found.Terminated s)
    : Yields BUFSIZE (updateChrdevText found content level n) (updated s level n) := by
  have fits : s.length < BUFSIZE := size ▸ holds.length_lt
  have bufsize : BUFSIZE = 4096 := rfl
  have positive : 1 ≤ s.length := List.length_pos_iff.mpr some_
  have number : nul ∉ printNat (atomicRead n) := fun member =>
    absurd (isDigit_of_mem_printNat member) (by decide)
  obtain ⟨temp, copied, tempHolds, -⟩ := memcpy_string holds
    (by rw [length_fresh]; exact fits)
    ((getElem?_fresh found.temp fits).trans (congrArg some terminated.temp))
  obtain ⟨clean, rest, shape⟩ := id tempHolds
  have line
      : findNewline (temp.drop 1) (level + 2) 0 'a'
        = findNewline ((s ++ [nul]).drop 1) (level + 2) 0 'a' := by
    rw [shape, List.drop_append_of_le_length positive, List.drop_append_of_le_length positive,
      findNewline_behind]
  rw [updateChrdevText, updated, holds.strlen, Option.bind_eq_bind, Option.bind_some, copied,
    Option.bind_eq_bind, Option.bind_some, line]
  cases stops : findNewline ((s ++ [nul]).drop 1) (level + 2) 0 'a' with
  | none => exact .outside
  | some stop =>
      obtain ⟨i, ch⟩ := stop
      obtain ⟨-, high, char, low⟩ := findNewline_stops stops fun zero => absurd zero (Nat.succ_ne_zero _)
      have low := low (Nat.succ_pos _) (by decide)
      rw [List.length_drop, List.length_append, List.length_singleton] at high
      have inside : i ≤ s.length := by omega
      have length : (s.length + 1 + 2 ^ 64 - i) % 2 ^ 64 = (s.drop i).length + 1 := by
        rw [List.length_drop]
        omega
      have back : findTab temp i ch = findTab s i ch := by
        refine findTab_congr (fun m less => ?_) ch
        rw [shape, List.getElem?_append_left (by omega)]
      simp only [Option.bind_eq_bind, Option.bind_some, length, back]
      refine (strncpy_yields (tempHolds.drop inside) (length_fresh ..)).bind fun after t _ afterHolds _ => ?_
      cases tokens : findTab s i ch with
      | none => exact .outside
      | some token =>
          have short : (s.take token).length = token :=
            List.length_take_of_le (Nat.le_trans (findTab_le_of_ne tokens char low) inside)
          -- The part before the counter is terminated by hand.
          obtain ⟨before, before', beforeCopied, beforeWritten, beforeHolds⟩ :=
            strncpy_terminated (s := s.take token) (fun member => clean (List.mem_of_mem_take member))
              (s.drop token ++ nul :: rest) found.before
          rw [← List.append_assoc, List.take_append_drop, ← shape, short] at beforeCopied
          rw [short] at beforeWritten
          simp only [Option.bind_some, beforeCopied, beforeWritten]
          -- The result is put together.
          have empty := holds_fresh (n := BUFSIZE) terminated.final (by decide)
          refine (strncat_yields empty beforeHolds (BUFSIZE / 2) (length_fresh ..)).bind
            fun final u _ finalHolds finalLength => ?_
          refine (sprintf_yields number (length_fresh found.waiting 10)).bind
            fun waiting w _ waitingHolds _ => ?_
          refine (strncat_yields finalHolds waitingHolds (BUFSIZE / 2) finalLength).bind
            fun final u _ finalHolds finalLength => ?_
          exact strncat_yields finalHolds afterHolds (BUFSIZE / 2) finalLength

theorem fit_eq_some {size : Nat} (fits : fit size s = some t) : t = s := by
  unfold fit at fits
  split at fits
  · exact (Option.some.inj fits).symm
  · cases fits

/-- The string of a device stays nonempty: its first character stands before every counter. -/
theorem updated_ne_nil (some_ : s ≠ []) (updates : updated s level n = some t) : t ≠ [] := by
  simp only [updated, Option.bind_eq_bind, Option.bind_eq_some_iff] at updates
  obtain ⟨⟨i, ch⟩, -, after, -, token, tokens, final, first, waiting, -, final', second, third⟩ := updates
  have front := (findTab_le tokens).1
  obtain ⟨c, s, rfl⟩ := List.exists_cons_of_ne_nil some_
  obtain ⟨token, rfl⟩ := Nat.exists_eq_succ_of_ne_zero (Nat.ne_of_gt front)
  rw [fit_eq_some third, fit_eq_some second, fit_eq_some first]
  exact List.append_ne_nil_of_left_ne_nil (List.append_ne_nil_of_left_ne_nil (List.cons_ne_nil _ _) _) _

-----------------------------------------------------------------------------------------
-- A device and its updates
-----------------------------------------------------------------------------------------

/-- A call of `update_chrdev`: the level, its counter, and what the call finds in memory. -/
structure Update where
  level : Nat
  threadWaiting : Nat
  found : Found

/-- What a call is given. -/
def Update.call (u : Update) : Nat × Nat := (u.level, u.threadWaiting)

/-- The block that a call puts in the place of another one. -/
def Update.next (u : Update) (content : Option Block) : Option Block :=
  content.bind fun content => updateChrdevText u.found content u.level u.threadWaiting

/-- A call of `ts_create_char_device_file` with what it finds in memory, and the updates after it. The
counters that it counts the characters of and those that it prints are read one after the other.
-/
structure Device where
  key : Int
  euid : Int
  counted : Text
  text : Text
  /-- The values are those of their types. -/
  bounded : Bounded key euid text
  foundContent : Nat → Char
  foundLine : Nat → Char
  updates : List Update

/-- `content`, before and after each of some updates. -/
def contents (content : Option Block) : List Update → List (Option Block)
  | [] => [content]
  | u :: us => content :: contents (u.next content) us

def Device.created (d : Device) : Option Block :=
  tsCreateCharDeviceText d.foundContent d.foundLine d.key d.euid d.counted d.text

/-- The string in `content` after each operation. -/
def Device.texts (d : Device) : List (Option (List Char)) :=
  (contents d.created d.updates).map fun content => content.bind string

/-- The same operations. -/
structure Device.Like (d d' : Device) : Prop where
  key : d.key = d'.key
  euid : d.euid = d'.euid
  counted : d.counted = d'.counted
  text : d.text = d'.text
  calls : d.updates.map Update.call = d'.updates.map Update.call

/-- Every update finds its two terminators. -/
def UpdatesEnded (content : Option Block) : List Update → Prop
  | [] => True
  | u :: us => (∀ s, content.bind string = some s → u.found.Terminated s) ∧ UpdatesEnded (u.next content) us

/-- What is found behind the header, behind every copied text and in front of every new text ends a
string.
-/
structure Device.Ended (d : Device) : Prop where
  created : d.foundContent header.length = nul
  updates : UpdatesEnded d.created d.updates

/-- The strings that calls make of another one. -/
def derived (s : Option (List Char)) : List (Nat × Nat) → List (Option (List Char))
  | [] => [s]
  | (level, threadWaiting) :: calls =>
      s :: derived (s.bind fun s => updated s level threadWaiting) calls

/-- The strings of a device are derived from its first one, by induction on the updates. -/
theorem texts_eq_derived {content : Option Block} {text : Option (List Char)} {us : List Update}
    (yields : Yields BUFSIZE content text) (some_ : ∀ s, text = some s → s ≠ [])
    (ended : UpdatesEnded content us)
    : ((contents content us).map fun content => content.bind string)
      = derived text (us.map Update.call) := by
  induction us generalizing content text with
  | nil => rw [contents, List.map_singleton, yields.string, List.map_nil, derived]
  | cons u us ih =>
      obtain ⟨here, later⟩ := ended
      have next
          : Yields BUFSIZE (u.next content) (text.bind fun s => updated s u.level u.threadWaiting) :=
        yields.bind fun b s same holds length =>
          updateChrdevText_yields holds length (some_ s same)
            (here s (yields.string.trans same))
      have nonempty : ∀ t, (text.bind fun s => updated s u.level u.threadWaiting) = some t → t ≠ [] := by
        intro t made
        obtain ⟨s, same, updates⟩ := Option.bind_eq_some_iff.mp made
        exact updated_ne_nil (some_ s same) updates
      rw [contents, List.map_cons, yields.string, ih next nonempty later]
      rfl

/-- A device that finds its terminators has the strings that its calls say. -/
theorem Device.texts_eq (d : Device) (ended : d.Ended)
    : d.texts
      = derived (some (header ++ cutRows d.key d.euid d.counted d.text levels))
          (d.updates.map Update.call) := by
  obtain ⟨b, created, holds, length⟩ := tsCreateCharDeviceText_eq_some d.foundContent d.foundLine
    d.counted d.bounded ended.created
  have yields
      : Yields BUFSIZE d.created
          (some (header ++ cutRows d.key d.euid d.counted d.text levels)) := by
    rw [Device.created, created]
    exact .block holds length
  refine texts_eq_derived yields (fun s same => ?_) ended.updates
  obtain rfl := Option.some.inj same
  exact List.append_ne_nil_of_left_ne_nil (List.cons_ne_nil _ _) _

/-- Two devices with the same operations have the same text after each of them, whatever they find in
memory besides their terminators.
-/
theorem texts_independent {d d' : Device} (same : d.Like d') (first : d.Ended) (second : d'.Ended)
    : d.texts = d'.texts := by
  rw [d.texts_eq first, d'.texts_eq second, same.key, same.euid, same.counted, same.text,
    same.calls]

/-- A device of a service with a small key and no waiting threads. -/
def smallDevice (foundContent : Nat → Char) (updates : List Update) : Device where
  key := 7
  euid := 1000
  counted := fun _ => 0
  text := fun _ => 0
  bounded := ⟨by unfold IsInt; decide, by unfold IsInt; decide, fun _ _ => by decide⟩
  foundContent := foundContent
  foundLine := fun _ => 'x'
  updates := updates

/-- What an update finds where only the terminators read as zero. -/
def scattered (c : Char) : Found where
  temp := fun _ => nul
  after := fun _ => c
  before := fun _ => c
  final := fun i => if i = 0 then nul else c
  waiting := fun _ => c

/-- A receiver starts to wait at level 3, and stops. -/
theorem texts_independent_of_scattered
    : (smallDevice (fun _ => nul) [⟨3, 1, scattered nul⟩, ⟨3, 0, scattered 'y'⟩]).texts
      = (smallDevice (fun i => if i = header.length then nul else 'x')
          [⟨3, 1, scattered 'z'⟩, ⟨3, 0, scattered 'x'⟩]).texts :=
  texts_independent ⟨rfl, rfl, rfl, rfl, rfl⟩
    ⟨rfl, fun _ _ => ⟨rfl, rfl⟩, fun _ _ => ⟨rfl, rfl⟩, trivial⟩
    ⟨rfl, fun _ _ => ⟨rfl, rfl⟩, fun _ _ => ⟨rfl, rfl⟩, trivial⟩

/-- A character that is found behind the header stays in the text. -/
theorem text_depends_on_found_byte : ¬ ∀ d d' : Device, d.Like d' → d.texts = d'.texts := by
  intro always
  have same := always (smallDevice (fun _ => nul) [])
    (smallDevice (fun i => if i = header.length then 'x' else nul) []) ⟨rfl, rfl, rfl, rfl, rfl⟩
  have behind
      : Holds ((fresh (fun i => if i = header.length then 'x' else nul) BUFSIZE).drop header.length)
          ['x'] := by
    rw [drop_fresh _ (by decide), drop_fresh _ (by decide)]
    exact (holds_nil _).cons (by decide)
  obtain ⟨b, created, holds, -⟩ := tsCreateCharDeviceText_eq_some (fun _ => nul) (fun _ => 'x')
    (fun _ => 0) (smallDevice (fun _ => nul) []).bounded rfl
  obtain ⟨b', created', holds', -⟩ := tsCreateCharDeviceText_behind (fun _ => 'x')
    (fun _ => 0) (smallDevice (fun _ => nul) []).bounded behind (by decide)
  have text : (smallDevice (fun _ => nul) []).created = some b := created
  have text'
      : (smallDevice (fun i => if i = header.length then 'x' else nul) []).created = some b' :=
    created'
  rw [Device.texts, Device.texts, text, text'] at same
  have strings : string b = string b' := (List.cons.inj same).1
  rw [holds.string, holds'.string] at strings
  have lengths := congrArg List.length (Option.some.inj strings)
  simp only [List.length_append, List.length_singleton] at lengths
  change _ + (cutRows _ _ _ _ _).length = _ at lengths
  omega

end TagExchange
