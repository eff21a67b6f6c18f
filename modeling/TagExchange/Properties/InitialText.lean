import TagExchange.Model.Routines
import TagExchange.Properties.DeviceCells

/-! The text that a device gets when it is created: `snprintf` cuts its lines where
`ts_create_char_device_file` has counted too few characters.
-/

namespace TagExchange

open CStrings

variable {foundContent foundLine : Nat → Char} {key euid l : Int} {counted text : Text}
  {width count n : Nat}

-----------------------------------------------------------------------------------------
-- Counted characters
-----------------------------------------------------------------------------------------

/-- The loop counts the digits of a number, by induction on the number. -/
theorem countDigits_eq (some_ : n ≠ 0) : countDigits n = (printNat n).length := by
  induction n using Nat.strongRecOn with
  | ind n ih =>
      rw [countDigits, if_neg some_, length_printNat]
      by_cases single : n < 10
      · have none_ : n / 10 = 0 := Nat.div_eq_of_lt single
        rw [none_, countDigits, if_pos rfl, if_pos single]
      · rw [if_neg single, ih (n / 10) (by omega) (by omega)]

/-- `countCharsOfNumber` counts the characters that its argument is printed with. -/
theorem countCharsOfNumber_eq (n : Int) : countCharsOfNumber n = (printInt n).length := by
  rw [countCharsOfNumber, printInt]
  by_cases zero : n = 0
  · subst zero
    decide
  · rw [if_neg zero, countDigits_eq (Int.natAbs_ne_zero.mpr zero)]
    split
    · rw [List.length_cons, Nat.add_comm]
    · exact Nat.zero_add _

theorem lineSize_eq (euid : Int) (width : Nat)
    : lineSize euid width = (printInt euid).length + countCharsOfNumber (toLong width) + 10 := by
  have services : countCharsOfNumber MAX_TAG_SERVICES = 3 := by
    rw [countCharsOfNumber_eq]
    decide
  have levels : countCharsOfNumber MAX_LEVELS = 2 := by
    rw [countCharsOfNumber_eq]
    decide
  rw [lineSize, services, levels, countCharsOfNumber_eq euid]
  omega

/-- The key, the level and the counter of a line take no more characters than were counted for them:
five, and those of the counter that was counted, as a `long`.
-/
def LineFits (key l : Int) (width count : Nat) : Prop :=
  (printInt key).length + (printInt l).length + (printNat count).length
    ≤ countCharsOfNumber (toLong width) + 5

/-- A line is printed whole where it fits. -/
theorem length_row_le_iff (key euid l : Int) (width count : Nat)
    : (row key euid l count).length ≤ lineSize euid width - 1 ↔ LineFits key l width count := by
  rw [lineSize_eq, LineFits]
  simp only [row, List.length_append, List.length_cons, List.length_nil]
  omega

/-- A counter that is not negative as a `long` is counted right. -/
theorem countCharsOfNumber_toLong (small : count < 2 ^ 63)
    : countCharsOfNumber (toLong count) = (printNat count).length := by
  have positive : ¬ ((count : Int) < 0) := by omega
  rw [toLong, if_pos small, countCharsOfNumber_eq, printInt, if_neg positive, Int.natAbs_natCast]

-----------------------------------------------------------------------------------------
-- The text that is left
-----------------------------------------------------------------------------------------

/-- The lines as `snprintf` leaves them. -/
def cutRows (key euid : Int) (counted text : Text) (ls : List Int) : List Char :=
  ls.flatMap fun l => (row key euid l (text l)).take (lineSize euid (counted l) - 1)

/-- The bounds that keep all lines in their buffers. -/
structure Bounded (key euid : Int) (text : Text) : Prop where
  key : IsInt key
  euid : IsInt euid
  counts : ∀ l ∈ levels, text l < 2 ^ 64

theorem Bounded.length_row_le (bounded : Bounded key euid text) (member : l ∈ levels)
    : (row key euid l (text l)).length ≤ 48 := by
  have first := length_printInt_le bounded.key.1 bounded.key.2
  have second := length_printInt_le bounded.euid.1 bounded.euid.2
  have third := length_level_le member
  have fourth : (printNat (text l)).length ≤ 20 :=
    (length_printNat_le_iff (by decide)).mpr (by have := bounded.counts l member; omega)
  simp only [row, List.length_append, List.length_cons, List.length_nil]
  omega

/-- The loop appends the cut lines, by induction on the levels that are left. -/
theorem appendLines_eq_some (bounded : Bounded key euid text) {ls : List Int}
    (inside : ∀ l ∈ ls, l ∈ levels) {line content : Block} {s : List Char}
    (lineLength : line.length = 100) (holds : Holds content s)
    (fits : s.length + 48 * ls.length < content.length)
    : ∃ b,
        appendLines key euid counted text ls line content = some b
        ∧ Holds b (s ++ cutRows key euid counted text ls)
        ∧ b.length = content.length := by
  induction ls generalizing line content s with
  | nil => exact ⟨content, rfl, by rwa [cutRows, List.flatMap_nil, List.append_nil], rfl⟩
  | cons l ls ih =>
      have short := bounded.length_row_le (inside l (List.mem_cons_self ..))
      obtain ⟨limit, size⟩ : ∃ limit, lineSize euid (counted l) = limit + 1 := ⟨_, lineSize_eq _ _⟩
      have cut : ((row key euid l (text l)).take limit).length ≤ 48 :=
        Nat.le_trans (List.length_take_le' ..) short
      obtain ⟨line', printed, lineHolds, lineLength'⟩ :=
        sprintf_eq_some (b := line) (t := (row key euid l (text l)).take limit)
          (fun member => nul_notMem_row (List.mem_of_mem_take member)) (by omega)
      rw [List.length_cons] at fits
      obtain ⟨content', appended, holds', contentLength⟩ :=
        strncat_eq_some (n := ((row key euid l (text l)).take limit).length) holds lineHolds
          (by rw [List.take_length]; omega)
      rw [List.take_length] at holds'
      obtain ⟨b, later, result, length⟩ := ih
        (fun l member => inside l (List.mem_cons_of_mem _ member)) (lineLength'.trans lineLength) holds'
        (by rw [List.length_append, contentLength]; omega)
      refine ⟨b, ?_, ?_, length.trans contentLength⟩
      · rw [appendLines, size, snprintf]
        simp only [printed, lineHolds.strlen, appended, Option.bind_eq_bind, Option.bind_some]
        exact later
      · rw [cutRows, List.flatMap_cons, size, Nat.add_sub_cancel, ← List.append_assoc]
        exact result

/-- A new device has the header, what was found behind it up to a terminator, and the cut lines. -/
theorem tsCreateCharDeviceText_behind {foundContent : Nat → Char} (foundLine : Nat → Char)
    (counted : Text) (bounded : Bounded key euid text) {behind : List Char}
    (terminated : Holds ((fresh foundContent BUFSIZE).drop header.length) behind)
    (short : behind.length < BUFSIZE / 2)
    : ∃ b,
        tsCreateCharDeviceText foundContent foundLine key euid counted text = some b
        ∧ Holds b (header ++ behind ++ cutRows key euid counted text levels)
        ∧ b.length = BUFSIZE := by
  have bufsize : BUFSIZE = 4096 := rfl
  have length : header.length = 24 := by decide
  have clean : nul ∉ header := by decide
  have size : (header ++ (fresh foundContent BUFSIZE).drop header.length).length = BUFSIZE := by
    rw [List.length_append, List.length_drop, length_fresh]
    omega
  have room : header.length ≤ (fresh foundContent BUFSIZE).length := by
    rw [length_fresh]
    omega
  have copied := strncpy_prefix clean [nul] room
  have holds : Holds (header ++ (fresh foundContent BUFSIZE).drop header.length) (header ++ behind) := by
    obtain ⟨inner, rest, shape⟩ := terminated
    refine ⟨fun member => (List.mem_append.mp member).elim clean inner, rest, ?_⟩
    rw [shape, List.append_assoc]
  obtain ⟨b, appended, result, length⟩ := appendLines_eq_some bounded (fun _ member => member)
    (length_fresh foundLine 100) holds (by
      rw [levels_length, size, List.length_append]
      omega)
  refine ⟨b, ?_, result, length.trans size⟩
  rw [tsCreateCharDeviceText, copied]
  exact appended

/-- A new device has the header and the cut lines, where the character behind the header reads as
zero.
-/
theorem tsCreateCharDeviceText_eq_some (foundContent foundLine : Nat → Char) (counted : Text)
    (bounded : Bounded key euid text) (terminated : foundContent header.length = nul)
    : ∃ b,
        tsCreateCharDeviceText foundContent foundLine key euid counted text = some b
        ∧ Holds b (header ++ cutRows key euid counted text levels)
        ∧ b.length = BUFSIZE := by
  have inside : header.length < BUFSIZE := by decide
  have nothing : Holds ((fresh foundContent BUFSIZE).drop header.length) [] := by
    rw [drop_fresh foundContent inside, terminated]
    exact holds_nil _
  simpa only [List.append_nil] using
    tsCreateCharDeviceText_behind foundLine counted bounded nothing (by decide)

-----------------------------------------------------------------------------------------
-- Complete lines
-----------------------------------------------------------------------------------------

theorem length_cutRows_le (key euid : Int) (counted text : Text) (ls : List Int)
    : (cutRows key euid counted text ls).length
      ≤ (ls.flatMap fun l => row key euid l (text l)).length := by
  induction ls with
  | nil => exact Nat.le_refl _
  | cons l ls ih =>
      have first := List.length_take_le' (lineSize euid (counted l) - 1) (row key euid l (text l))
      rw [cutRows, List.flatMap_cons, List.flatMap_cons, List.length_append, List.length_append]
      exact Nat.add_le_add first ih

/-- No line is cut exactly where every line fits, by induction on the levels. -/
theorem cutRows_eq_iff (ls : List Int)
    : cutRows key euid counted text ls = (ls.flatMap fun l => row key euid l (text l))
      ↔ ∀ l ∈ ls, LineFits key l (counted l) (text l) := by
  induction ls with
  | nil => simp [cutRows]
  | cons l ls ih =>
      have shorter := length_cutRows_le key euid counted text ls
      rw [List.forall_mem_cons, ← ih, ← length_row_le_iff key euid, cutRows, List.flatMap_cons,
        List.flatMap_cons]
      constructor
      · intro same
        have sizes := congrArg List.length same
        have first : (row key euid l (text l)).length ≤ lineSize euid (counted l) - 1 := by
          rw [List.length_append, List.length_append, List.length_take] at sizes
          change _ + (cutRows key euid counted text ls).length = _ at sizes
          omega
        rw [List.take_of_length_le first] at same
        exact ⟨first, List.append_cancel_left same⟩
      · rintro ⟨first, later⟩
        rw [List.take_of_length_le first]
        exact congrArg _ later

/-- What a reader of the device makes of a line: four numbers between tabs. -/
def readLine (line : List Char) : Option (Int × Int × Int × Nat) :=
  match line.splitOn tab with
  | [key, euid, l, count] => some (readInt key, readInt euid, readInt l, readNat count)
  | _ => none

/-- The lines of a text behind its header. -/
def readLines (text : List Char) : List (Option (Int × Int × Int × Nat)) :=
  ((text.splitOn newline).tail.dropLast).map readLine

theorem readLine_row
    : readLine (rowStart key euid l ++ tab :: printNat count) = some (key, euid, l, count) := by
  have number := fun n => notMem_printInt (c := tab) (by decide) (by decide) n
  have counter := notMem_printNat (c := tab) (by decide) count
  have split
      : (rowStart key euid l ++ tab :: printNat count).splitOn tab
        = [printInt key, printInt euid, printInt l, printNat count] := by
    rw [rowStart, List.append_assoc, List.append_assoc, List.cons_append, List.cons_append,
      List.splitOn_append_cons_self_of_not_mem (number key),
      List.splitOn_append_cons_self_of_not_mem (number euid),
      List.splitOn_append_cons_self_of_not_mem (number l), List.splitOn_eq_singleton counter]
  rw [readLine, split]
  simp only [readInt_printInt, readNat_printNat]

/-- The lines are split where they end, by induction on the levels. -/
theorem splitOn_rows (ls : List Int)
    : (ls.flatMap fun l => row key euid l (text l)).splitOn newline
      = (ls.map fun l => rowStart key euid l ++ tab :: printNat (text l)) ++ [[]] := by
  induction ls with
  | nil => simp
  | cons l ls ih =>
      have clean : newline ∉ rowStart key euid l ++ tab :: printNat (text l) := by
        intro member
        rcases List.mem_append.mp member with start | counter
        · exact newline_notMem_rowStart _ _ _ start
        · rcases List.mem_cons.mp counter with same | counter
          · exact absurd same (by decide)
          · exact notMem_printNat (by decide) _ counter
      have shape
          : row key euid l (text l) ++ (ls.flatMap fun l => row key euid l (text l))
            = (rowStart key euid l ++ tab :: printNat (text l))
              ++ newline :: ls.flatMap fun l => row key euid l (text l) := by
        rw [row_eq]
        simp
      rw [List.flatMap_cons, shape, List.splitOn_append_cons_self_of_not_mem clean, ih]
      rfl

/-- A complete text gives back the numbers that it was printed from. -/
theorem readLines_render
    : readLines (render key euid text) = levels.map fun l => some (key, euid, l, text l) := by
  have head : header = header.dropLast ++ [newline] := by decide
  have split
      : (render key euid text).splitOn newline
        = header.dropLast
          :: ((levels.map fun l => rowStart key euid l ++ tab :: printNat (text l)) ++ [[]]) := by
    rw [render, head, List.append_assoc, List.singleton_append,
      List.splitOn_append_cons_self_of_not_mem (by decide), splitOn_rows, List.dropLast_concat]
  rw [readLines, split, List.tail_cons, List.dropLast_concat, List.map_map]
  exact List.map_congr_left fun l _ => readLine_row

/-- A new device has the header and complete lines, that give back what they were printed from,
exactly where on the line of every level key, level and counter take no more characters than were
counted.
-/
theorem created_complete_iff (bounded : Bounded key euid text) (zeroed : ∀ i, foundContent i = nul)
    : (∃ b,
        tsCreateCharDeviceText foundContent foundLine key euid text text = some b
        ∧ Holds b (render key euid text)
        ∧ readLines (render key euid text) = levels.map fun l => some (key, euid, l, text l))
      ↔ ∀ l ∈ levels, LineFits key l (text l) (text l) := by
  obtain ⟨b, created, holds, -⟩ :=
    tsCreateCharDeviceText_eq_some foundContent foundLine text bounded (zeroed _)
  constructor
  · rintro ⟨b', created', holds', -⟩
    obtain rfl := Option.some.inj (created.symm.trans created')
    exact (cutRows_eq_iff levels).mp (List.append_cancel_left (holds.unique holds'))
  · intro fits
    refine ⟨b, created, ?_, readLines_render⟩
    rw [render, ← (cutRows_eq_iff levels).mpr fits]
    exact holds

/-- A service with a small key gets complete lines. -/
theorem created_complete_of_small_key
    : ∃ b,
        tsCreateCharDeviceText (fun _ => nul) (fun _ => 'x') 7 1000 (fun _ => 0) (fun _ => 0) = some b
        ∧ Holds b (render 7 1000 fun _ => 0)
        ∧ readLines (render 7 1000 fun _ => 0) = levels.map fun l => some (7, 1000, l, 0) := by
  have bounded : Bounded 7 1000 fun _ => 0 :=
    ⟨by unfold IsInt; decide, by unfold IsInt; decide, fun _ _ => by decide⟩
  refine (created_complete_iff bounded fun _ => rfl).mpr fun l member => ?_
  have short := length_level_le member
  have counted : countCharsOfNumber (toLong 0) = 1 := by
    rw [countCharsOfNumber_eq]
    decide
  have key : (printInt 7).length = 1 := by decide
  have count : (printNat 0).length = 1 := by decide
  rw [LineFits, counted, key, count]
  omega

/-- The lines of a key with four digits lose their ends from the eleventh level on. -/
theorem cuts_lines
    : ¬ ∀ (foundContent foundLine : Nat → Char) (key euid : Int) (text : Text),
          Bounded key euid text
          → 0 ≤ hashFunction key
          → (∀ i, foundContent i = nul)
          → ∃ b,
              tsCreateCharDeviceText foundContent foundLine key euid text text = some b
              ∧ Holds b (render key euid text)
              ∧ readLines (render key euid text) = levels.map fun l => some (key, euid, l, text l) := by
  intro always
  have bounded : Bounded 1000 1000 fun _ => 0 :=
    ⟨by unfold IsInt; decide, by unfold IsInt; decide, fun _ _ => by decide⟩
  obtain ⟨b, created, holds, -⟩ := tsCreateCharDeviceText_eq_some (fun _ => nul) (fun _ => 'x')
    (fun _ => 0) bounded rfl
  obtain ⟨b', created', holds', -⟩ :=
    always (fun _ => nul) (fun _ => 'x') 1000 1000 (fun _ => 0) bounded (by decide) fun _ => rfl
  obtain rfl := Option.some.inj (created.symm.trans created')
  have whole := (cutRows_eq_iff levels).mp (List.append_cancel_left (holds.unique holds'))
  have fits := whole 10 (by decide)
  have counted : countCharsOfNumber (toLong 0) = 1 := by
    rw [countCharsOfNumber_eq]
    decide
  have key : (printInt 1000).length = 4 := by decide
  have level : (printInt 10).length = 2 := by decide
  have count : (printNat 0).length = 1 := by decide
  rw [LineFits, counted, key, level, count] at fits
  omega

/-- As long as no counter is negative as a `long`, all lines fit for the keys from -99 to 999. -/
theorem lineFits_iff_of_small (small : ∀ l ∈ levels, text l < 2 ^ 63)
    : (∀ l ∈ levels, LineFits key l (text l) (text l)) ↔ -99 ≤ key ∧ key ≤ 999 := by
  have digits : (printInt key).length ≤ 3 ↔ -99 ≤ key ∧ key ≤ 999 := by
    have two := length_printNat_le_iff (n := key.natAbs) (k := 2) (by decide)
    have three := length_printNat_le_iff (n := key.natAbs) (k := 3) (by decide)
    unfold printInt
    split
    · rw [List.length_cons]
      omega
    · omega
  rw [← digits]
  constructor
  · intro fits
    have last := fits 31 (by decide)
    have level : (printInt 31).length = 2 := by decide
    rw [LineFits, countCharsOfNumber_toLong (small 31 (by decide)), level] at last
    omega
  · intro short l member
    have level := length_level_le member
    rw [LineFits, countCharsOfNumber_toLong (small l member)]
    omega

end TagExchange
