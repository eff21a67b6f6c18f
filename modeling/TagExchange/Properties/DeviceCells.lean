import Mathlib.Data.List.Induction
import Mathlib.Data.List.Nodup
import TagExchange.Model.DeviceText

/-! `update_chrdev` rewrites one cell of the text of a device: the counter of its level. -/

namespace TagExchange

open CStrings

-----------------------------------------------------------------------------------------
-- The two loops
-----------------------------------------------------------------------------------------

/-- The first loop stops at the line end that it looks for, by induction on what stands before. -/
theorem findNewline_eq {s : List Char} (clean : nul ∉ s) (rest : List Char) (i : Nat) {ch : Char}
    (char : ch ≠ nul)
    : findNewline (s ++ newline :: rest) (s.count newline + 1) i ch
      = some (i + s.length + 1, newline) := by
  induction s generalizing i ch with
  | nil =>
      rw [List.nil_append, List.count_nil, Nat.zero_add, findNewline, if_neg char, if_pos rfl]
      cases rest <;> rfl
  | cons c s ih =>
      have here : c ≠ nul := fun same => clean (same ▸ List.mem_cons_self ..)
      have later := ih (fun member => clean (List.mem_cons_of_mem _ member)) (i + 1) here
      have index : i + (c :: s).length + 1 = i + 1 + s.length + 1 := by
        rw [List.length_cons]
        omega
      rw [List.cons_append, findNewline, if_neg char, index, ← later]
      by_cases line : c = newline
      · rw [if_pos line, line, List.count_cons_self]
      · rw [if_neg line, List.count_cons_of_ne line]

/-- The second loop goes back to the last tab, by induction on the cell behind it from the right. -/
theorem findTab_eq {cell : List Char} (clean : tab ∉ cell) (before rest : List Char) {ch : Char}
    (char : ch ≠ tab)
    : findTab (before ++ tab :: (cell ++ rest)) (before.length + 1 + cell.length) ch
      = some (before.length + 1) := by
  induction cell using List.reverseRecOn generalizing rest ch with
  | nil =>
      have here : (before ++ tab :: rest)[before.length]? = some tab := by simp
      rw [List.nil_append, List.length_nil, Nat.add_zero, findTab, if_neg char, here, Option.bind_some]
      cases before.length with
      | zero => rfl
      | succ n => exact if_pos rfl
  | append_singleton cell c ih =>
      have other : c ≠ tab := fun same => clean (by simp [same])
      have here
          : (before ++ tab :: (cell ++ [c] ++ rest))[before.length + 1 + cell.length]? = some c := by
        have position : before.length + 1 + cell.length - before.length = cell.length + 1 := by omega
        rw [List.getElem?_append_right (by omega), position]
        simp
      rw [List.length_append, List.length_singleton, ← Nat.add_assoc, findTab, if_neg char, here,
        Option.bind_some, List.append_assoc]
      exact ih (fun member => clean (List.mem_append_left _ member)) ([c] ++ rest) other

-----------------------------------------------------------------------------------------
-- One update
-----------------------------------------------------------------------------------------

/-- The characters that decide what `update_chrdev` makes of a text: the one behind the copy in the
intermediate buffer, and the first one of the buffer for the result.
-/
structure Found.Terminated (found : Found) (text : List Char) : Prop where
  temp : found.temp text.length = nul
  final : found.final 0 = nul

/-- A text with a cell between a tab and the line end that belongs to a level. -/
structure CellOf (text before cell after : List Char) (level : Nat) : Prop where
  shape : text = before ++ tab :: (cell ++ newline :: after)
  clean : nul ∉ text
  line : (before ++ tab :: cell).tail.count newline = level + 1
  cell : tab ∉ cell

variable {found : Found} {content : Block} {text before cell after : List Char} {level n : Nat}

theorem CellOf.tail (x : CellOf text before cell after level)
    : text.drop 1 = (before ++ tab :: cell).tail ++ newline :: after := by
  rw [x.shape, List.drop_one, ← List.tail_append_of_ne_nil (by simp), List.append_assoc,
    List.cons_append]

/-- The loops find the cell. -/
theorem CellOf.loops (x : CellOf text before cell after level) {temp : Block} (holds : Holds temp text)
    : findNewline (temp.drop 1) (level + 2) 0 'a' = some ((before ++ tab :: cell).length, newline)
      ∧ findTab temp (before ++ tab :: cell).length newline = some (before.length + 1) := by
  obtain ⟨-, rest, rfl⟩ := holds
  have nonempty : 1 ≤ text.length := by
    rw [x.shape]
    simp
    omega
  have length : (before ++ tab :: cell).tail.length + 1 = (before ++ tab :: cell).length := by
    rw [List.length_tail, List.length_append, List.length_cons]
    omega
  constructor
  · have clean : nul ∉ (before ++ tab :: cell).tail := by
      intro member
      refine x.clean ?_
      rw [x.shape]
      have member := List.mem_of_mem_tail member
      simp only [List.mem_append, List.mem_cons] at member ⊢
      tauto
    have found := findNewline_eq clean (after ++ nul :: rest) 0 (show 'a' ≠ nul by decide)
    rw [x.line] at found
    rw [List.drop_append_of_le_length nonempty, x.tail, List.append_assoc, List.cons_append, found,
      Nat.zero_add, length]
  · have back := findTab_eq x.cell before (newline :: after ++ nul :: rest)
      (show newline ≠ tab by decide)
    have index : (before ++ tab :: cell).length = before.length + 1 + cell.length := by
      rw [List.length_append, List.length_cons]
      omega
    rw [x.shape, index, ← back]
    simp

/-- An update replaces the cell of its level by the counter, where the buffers are large enough. -/
theorem updateChrdevText_eq_some (x : CellOf text before cell after level) (holds : Holds content text)
    (terminated : found.Terminated text)
    (short : text.length + 10 < BUFSIZE / 2) (digits : (printNat (atomicRead n)).length < 10)
    : ∃ b,
        updateChrdevText found content level n = some b
        ∧ Holds b (before ++ tab :: (printNat (atomicRead n) ++ newline :: after))
        ∧ b.length = BUFSIZE := by
  have length
      : text.length = (before ++ tab :: cell).length + (newline :: after).length := by
    rw [x.shape]
    simp only [List.length_append, List.length_cons]
    omega
  have front : (before ++ [tab]).length = before.length + 1 := by simp
  have index : (before ++ tab :: cell).length = before.length + 1 + cell.length := by
    rw [List.length_append, List.length_cons]
    omega
  have bufsize : BUFSIZE = 4096 := rfl
  have split : text = (before ++ [tab]) ++ (cell ++ newline :: after) := by rw [x.shape]; simp
  have clean : nul ∉ before ++ [tab] := fun member => x.clean (split ▸ List.mem_append_left _ member)
  have number : nul ∉ printNat (atomicRead n) := fun member =>
    absurd (isDigit_of_mem_printNat member) (by decide)
  -- The two halves of the text.
  have fits : text.length < BUFSIZE := by omega
  obtain ⟨temp, copied, tempHolds, -⟩ := memcpy_string holds
    (by rw [length_fresh]; exact fits)
    ((getElem?_fresh found.temp fits).trans (congrArg some terminated.temp))
  obtain ⟨line, token⟩ := x.loops tempHolds
  have behind : text.drop (before ++ tab :: cell).length = newline :: after := by
    rw [x.shape, ← List.cons_append, ← List.append_assoc, List.drop_left]
  have size
      : (text.length + 1 + 2 ^ 64 - (before ++ tab :: cell).length) % 2 ^ 64
        = (newline :: after).length + 1 := by
    rw [length]
    omega
  have rest := behind ▸ tempHolds.drop (i := (before ++ tab :: cell).length) (by omega)
  obtain ⟨second, secondCopied, secondHolds, -⟩ :=
    strncpy_eq_some rest (Nat.lt_succ_self _)
      (show _ ≤ (fresh found.after (BUFSIZE / 2)).length by rw [length_fresh]; omega)
  obtain ⟨-, more, shape⟩ := tempHolds
  obtain ⟨first, first', firstCopied, firstWritten, firstHolds⟩ :=
    strncpy_terminated clean (cell ++ newline :: after ++ nul :: more) found.before
  rw [← List.append_assoc, ← split, ← shape, front] at firstCopied
  rw [front] at firstWritten
  -- The result is put together.
  obtain ⟨final, appended, finalHolds, finalLength⟩ :=
    strncat_eq_some (n := BUFSIZE / 2) (holds_fresh terminated.final (show 0 < BUFSIZE by decide))
      firstHolds (by rw [length_fresh, List.length_take, List.length_nil]; omega)
  obtain ⟨waiting, printed, waitingHolds, -⟩ :=
    sprintf_eq_some (b := fresh found.waiting 10) number (by rw [length_fresh]; exact digits)
  obtain ⟨final', appended', finalHolds', finalLength'⟩ :=
    strncat_eq_some (n := BUFSIZE / 2) finalHolds waitingHolds (by
      rw [finalLength, length_fresh, List.nil_append, List.length_take, List.length_take]
      omega)
  obtain ⟨final'', appended'', finalHolds'', finalLength''⟩ :=
    strncat_eq_some (n := BUFSIZE / 2) finalHolds' secondHolds (by
      rw [finalLength', finalLength, length_fresh, List.nil_append, List.length_append,
        List.length_take, List.length_take, List.length_take]
      omega)
  refine ⟨final'', ?_, ?_, ?_⟩
  · simp only [updateChrdevText, holds.strlen, copied, line, token, size, secondCopied, firstCopied,
      firstWritten, appended, printed, appended', Option.bind_eq_bind, Option.bind_some]
    exact appended''
  · rw [List.nil_append, List.take_of_length_le (by omega), List.take_of_length_le (by omega),
      List.take_of_length_le (by omega)] at finalHolds''
    simpa using finalHolds''
  · rw [finalLength'', finalLength', finalLength, length_fresh]

-----------------------------------------------------------------------------------------
-- Lines
-----------------------------------------------------------------------------------------

/-- A character that is printed for a number is neither a separator nor a terminator. -/
theorem notMem_printInt {c : Char} (digit : c.isDigit = false) (sign : c ≠ Char.ofNat 45) (n : Int)
    : c ∉ printInt n := by
  intro member
  rcases isDigit_of_mem_printInt member with yes | same
  · exact absurd (digit.symm.trans yes) (by decide)
  · exact sign same

theorem notMem_printNat {c : Char} (digit : c.isDigit = false) (n : Nat) : c ∉ printNat n :=
  fun member => absurd (digit.symm.trans (isDigit_of_mem_printNat member)) (by decide)

/-- A line up to its counter. -/
def rowStart (key euid l : Int) : List Char :=
  printInt key ++ tab :: printInt euid ++ tab :: printInt l

variable {key euid l : Int} {count : Nat} {w : Text}

theorem row_eq (key euid l : Int) (count : Nat)
    : row key euid l count = rowStart key euid l ++ tab :: (printNat count ++ [newline]) := by
  simp [row, rowStart]

theorem newline_notMem_rowStart (key euid l : Int) : newline ∉ rowStart key euid l := by
  have number := fun n => notMem_printInt (c := newline) (by decide) (by decide) n
  simp only [rowStart, List.mem_append, List.mem_cons, number]
  decide

theorem nul_notMem_row : nul ∉ row key euid l count := by
  have number := fun n => notMem_printInt (c := nul) (by decide) (by decide) n
  have counter := fun n => notMem_printNat (c := nul) (by decide) n
  simp only [row, List.mem_append, List.mem_cons, number, counter]
  decide

/-- A line has one line end. -/
theorem count_row : (row key euid l count).count newline = 1 := by
  have number := List.count_eq_zero_of_not_mem (notMem_printNat (c := newline) (by decide) count)
  have start := List.count_eq_zero_of_not_mem (newline_notMem_rowStart key euid l)
  rw [row_eq, List.count_append, start, List.count_cons, List.count_append, number]
  rfl

/-- As many line ends as lines, by induction on the levels. -/
theorem count_rows (ls : List Int)
    : (ls.flatMap fun l => row key euid l (w l)).count newline = ls.length := by
  induction ls with
  | nil => rfl
  | cons l ls ih =>
      rw [List.flatMap_cons, List.count_append, count_row, ih, List.length_cons]
      omega

theorem nul_notMem_render : nul ∉ render key euid w := by
  intro member
  rcases List.mem_append.mp member with head | lines
  · exact absurd head (by decide)
  · obtain ⟨l, -, inside⟩ := List.mem_flatMap.mp lines
    exact nul_notMem_row inside

-----------------------------------------------------------------------------------------
-- The levels
-----------------------------------------------------------------------------------------

theorem levels_length : levels.length = 32 := by decide

theorem levels_nodup : levels.Nodup := by decide

/-- The levels before one, the level, and the levels behind it. -/
theorem levels_split (inside : level < 32)
    : levels = levels.take level ++ (level : Int) :: levels.drop (level + 1) := by
  have bound : level < levels.length := by rw [levels_length]; exact inside
  have here : levels[level] = (level : Int) := by simp [levels]
  conv_lhs => rw [← List.take_append_drop level levels, List.drop_eq_getElem_cons bound, here]

/-- The lines of the other levels do not show the counter of a level. -/
theorem rows_update {ls : List Int} (other : (level : Int) ∉ ls) (n : Nat)
    : (ls.flatMap fun l => row key euid l (Function.update w (level : Int) n l))
      = ls.flatMap fun l => row key euid l (w l) := by
  refine List.flatMap_congr fun l member => ?_
  have apart : l ≠ (level : Int) := fun same => other (same ▸ member)
  rw [Function.update_of_ne apart]

/-- The text in front of the counter of a level. -/
def beforeCell (key euid : Int) (w : Text) (level : Nat) : List Char :=
  header ++ ((levels.take level).flatMap fun l => row key euid l (w l)) ++ rowStart key euid level

/-- The lines behind the one of a level. -/
def afterCell (key euid : Int) (w : Text) (level : Nat) : List Char :=
  (levels.drop (level + 1)).flatMap fun l => row key euid l (w l)

theorem render_split (inside : level < 32)
    : render key euid w
      = beforeCell key euid w level
        ++ tab :: (printNat (w level) ++ newline :: afterCell key euid w level) := by
  rw [render, beforeCell, afterCell]
  conv_lhs => rw [levels_split inside]
  simp [List.flatMap_append, List.flatMap_cons, row_eq]

/-- The text with another counter for one level. -/
theorem render_update (inside : level < 32) (n : Nat)
    : render key euid (Function.update w (level : Int) n)
      = beforeCell key euid w level ++ tab :: (printNat n ++ newline :: afterCell key euid w level) := by
  have distinct := levels_nodup
  rw [levels_split inside] at distinct
  have apart := List.nodup_middle.mp distinct
  obtain ⟨out, -⟩ := List.nodup_cons.mp apart
  simp only [List.mem_append, not_or] at out
  rw [render_split inside, beforeCell, afterCell, rows_update out.1, rows_update out.2,
    Function.update_self]
  rfl

/-- The counter of a level stands in a cell of the text. -/
theorem cellOf_render (key euid : Int) (w : Text) (inside : level < 32)
    : CellOf (render key euid w) (beforeCell key euid w level) (printNat (w level))
        (afterCell key euid w level) level where
  shape := render_split inside
  clean := nul_notMem_render
  cell := notMem_printNat (by decide) _
  line := by
    have length : (levels.take level).length = level := by
      rw [List.length_take, levels_length]
      omega
    have counter := List.count_eq_zero_of_not_mem (notMem_printNat (c := newline) (by decide) (w level))
    have start := List.count_eq_zero_of_not_mem
      (newline_notMem_rowStart key euid level)
    have first
        : (beforeCell key euid w level ++ tab :: printNat (w level)).tail
          = header.tail ++ (((levels.take level).flatMap fun l => row key euid l (w l))
              ++ rowStart key euid level ++ tab :: printNat (w level)) := by
      simp [beforeCell, header]
    rw [first, List.count_append, List.count_append, List.count_append, count_rows, length, start,
      List.count_cons, counter, Nat.add_comm]
    rfl

-----------------------------------------------------------------------------------------
-- Lengths
-----------------------------------------------------------------------------------------

/-- The values of an `int`. -/
def IsInt (n : Int) : Prop := -2 ^ 31 ≤ n ∧ n < 2 ^ 31

/-- The lines are no longer than the sum of their bounds, by induction on the levels. -/
theorem length_rows_le {ls : List Int} {bound : Nat}
    (short : ∀ l ∈ ls, (row key euid l (w l)).length ≤ bound)
    : (ls.flatMap fun l => row key euid l (w l)).length ≤ bound * ls.length := by
  induction ls with
  | nil => exact Nat.zero_le _
  | cons l ls ih =>
      have first := short l (List.mem_cons_self ..)
      have later := ih fun l member => short l (List.mem_cons_of_mem _ member)
      rw [List.flatMap_cons, List.length_append, List.length_cons, Nat.mul_succ]
      omega

theorem length_level_le {l : Int} (member : l ∈ levels) : (printInt l).length ≤ 2 := by
  revert l
  decide

/-- A line with a counter of at most nine digits has at most 37 characters. -/
theorem length_row_le (keyInt : IsInt key) (euidInt : IsInt euid) (member : l ∈ levels)
    (digits : (printNat count).length ≤ 9)
    : (row key euid l count).length ≤ 37 := by
  have first := length_printInt_le keyInt.1 keyInt.2
  have second := length_printInt_le euidInt.1 euidInt.2
  have third := length_level_le member
  simp only [row, List.length_append, List.length_cons, List.length_nil]
  omega

theorem length_render_le (keyInt : IsInt key) (euidInt : IsInt euid)
    (counts : ∀ l ∈ levels, w l < 10 ^ 9)
    : (render key euid w).length ≤ 1208 := by
  have lines := length_rows_le (w := w) fun l member =>
    length_row_le keyInt euidInt member ((length_printNat_le_iff (by decide)).mpr (counts l member))
  have head : header.length = 24 := by decide
  rw [levels_length] at lines
  rw [render, List.length_append, head]
  omega

-----------------------------------------------------------------------------------------
-- The update
-----------------------------------------------------------------------------------------

/-- The blocks that `update_chrdev` allocates read as zero. -/
structure Found.Zeroed (found : Found) : Prop where
  temp : ∀ i, found.temp i = nul
  after : ∀ i, found.after i = nul
  before : ∀ i, found.before i = nul
  final : ∀ i, found.final i = nul

theorem Found.Zeroed.terminated (zeroed : found.Zeroed) (text : List Char) : found.Terminated text :=
  ⟨zeroed.temp _, zeroed.final _⟩

theorem atomicRead_of_lt (small : n < 2 ^ 31) : atomicRead n = n := by
  have low : n % 2 ^ 32 = n := Nat.mod_eq_of_lt (by omega)
  rw [atomicRead, low, if_pos small]

/-- An update of a rendered text renders the table with one counter replaced. Its buffers are large
enough, and the indices that it finds lie in the text.
-/
theorem update_replaces_cell (zeroed : found.Zeroed) (keyInt : IsInt key) (euidInt : IsInt euid)
    (counts : ∀ l ∈ levels, w l < 10 ^ 9) (inside : level < MAX_LEVELS.toNat) (count : n < 10 ^ 9)
    (holds : Holds content (render key euid w))
    : (∃ b,
        updateChrdevText found content level n = some b
        ∧ Holds b (render key euid (Function.update w (level : Int) n))
        ∧ b.length = BUFSIZE)
      ∧ ∃ temp i beforeToken,
          memcpy (fresh found.temp BUFSIZE) content (render key euid w).length = some temp
          ∧ findNewline (temp.drop 1) (level + 2) 0 'a' = some (i, newline)
          ∧ findTab temp i newline = some beforeToken
          ∧ beforeToken ≤ i
          ∧ i < (render key euid w).length := by
  have inside : level < 32 := inside
  have read : atomicRead n = n := atomicRead_of_lt (by omega)
  have cell := cellOf_render key euid w inside
  have terminated := zeroed.terminated (render key euid w)
  have bound := length_render_le keyInt euidInt counts
  have digits : (printNat (atomicRead n)).length < 10 := by
    rw [read]
    exact Nat.lt_succ_of_le ((length_printNat_le_iff (by decide)).mpr count)
  have bufsize : BUFSIZE = 4096 := rfl
  constructor
  · obtain ⟨b, updated, result, size⟩ :=
      updateChrdevText_eq_some cell holds terminated (by omega) digits
    rw [read, ← render_update inside] at result
    exact ⟨b, updated, result, size⟩
  · have fits : (render key euid w).length < BUFSIZE := by omega
    obtain ⟨temp, copied, tempHolds, -⟩ := memcpy_string holds
      (by rw [length_fresh]; exact fits)
      ((getElem?_fresh found.temp fits).trans (congrArg some terminated.temp))
    obtain ⟨line, token⟩ := cell.loops tempHolds
    refine ⟨temp, _, _, copied, line, token, ?_, ?_⟩
    · rw [List.length_append, List.length_cons]
      omega
    · rw [cell.shape]
      simp only [List.length_append, List.length_cons]
      omega

/-- A receiver enters at the fourth level of a service that has none. -/
theorem update_replaces_cell_of_receiver
    : ∃ b,
        updateChrdevText ⟨fun _ => nul, fun _ => nul, fun _ => nul, fun _ => nul, fun _ => 'x'⟩
            (render 5 1000 (fun _ => 0) ++ [nul]) 3 1
          = some b
        ∧ Holds b (render 5 1000 (Function.update (fun _ => 0) 3 1))
        ∧ b.length = BUFSIZE :=
  (update_replaces_cell ⟨fun _ => rfl, fun _ => rfl, fun _ => rfl, fun _ => rfl⟩
    (by unfold IsInt; decide) (by unfold IsInt; decide) (fun _ _ => by decide) (by decide) (by decide)
    ⟨nul_notMem_render, [], rfl⟩).1

end TagExchange
