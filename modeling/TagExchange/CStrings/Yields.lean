import TagExchange.CStrings.Block

/-! What the functions of the C library do to the strings in their blocks, whatever stands behind the
terminators.
-/

namespace CStrings

variable {src dst : Block} {s t : List Char} {size : Nat}

/-- A string, where there is room for it and its terminator. -/
def fit (size : Nat) (s : List Char) : Option (List Char) := if s.length < size then some s else none

theorem fit_of_lt (room : s.length < size) : fit size s = some s := if_pos room

theorem fit_of_le (full : size ≤ s.length) : fit size s = none := if_neg (Nat.not_lt.mpr full)

/-- A result is a block of this size with this string, or both are missing. -/
inductive Yields (size : Nat) : Option Block → Option (List Char) → Prop
  | outside : Yields size none none
  | block {b : Block} {s : List Char} (holds : Holds b s) (length : b.length = size) : Yields size (some b) (some s)

/-- A result yields its string. -/
theorem Yields.string {result : Option Block} {text : Option (List Char)}
    (yields : Yields size result text)
    : result.bind CStrings.string = text := by
  cases yields with
  | outside => rfl
  | block holds _ => exact holds.string

/-- What goes on with a result goes on with its string. -/
theorem Yields.bind {result : Option Block} {text : Option (List Char)} {size' : Nat}
    {f : Block → Option Block} {g : List Char → Option (List Char)} (yields : Yields size result text)
    (next : ∀ b s, text = some s → Holds b s → b.length = size → Yields size' (f b) (g s))
    : Yields size' (result.bind f) (text.bind g) := by
  cases yields with
  | outside => exact .outside
  | block holds length => exact next _ _ rfl holds length

/-- `sprintf` prints what fits. -/
theorem sprintf_yields (clean : nul ∉ t) (length : dst.length = size)
    : Yields size (sprintf dst t) (fit size t) := by
  subst length
  rcases Nat.lt_or_ge t.length dst.length with room | full
  · obtain ⟨b, printed, holds, length⟩ := sprintf_eq_some clean room
    rw [printed, fit_of_lt room]
    exact .block holds length
  · rw [sprintf_eq_none full, fit_of_le full]
    exact .outside

/-- `strncat` appends what fits. -/
theorem strncat_yields (first : Holds dst s) (second : Holds src t) (n : Nat)
    (length : dst.length = size)
    : Yields size (strncat dst src n) (fit size (s ++ t.take n)) := by
  subst length
  have sum : (s ++ t.take n).length = s.length + (t.take n).length := List.length_append
  rcases Nat.lt_or_ge (s ++ t.take n).length dst.length with room | full
  · obtain ⟨b, appended, holds, length⟩ := strncat_eq_some (n := n) first second (sum ▸ room)
    rw [appended, fit_of_lt room]
    exact .block holds length
  · rw [strncat_eq_none first second (sum ▸ full), fit_of_le full]
    exact .outside

/-- `strncpy` with the length of the string and its terminator copies what fits. -/
theorem strncpy_yields (holds : Holds src s) (length : dst.length = size)
    : Yields size (strncpy dst src (s.length + 1)) (fit size s) := by
  subst length
  rcases Nat.lt_or_ge s.length dst.length with room | full
  · obtain ⟨b, copied, holds, length⟩ := strncpy_eq_some holds (Nat.lt_succ_self _) room
    rw [copied, fit_of_lt room]
    exact .block holds length
  · rw [strncpy_eq_none holds (Nat.lt_succ_of_le full), fit_of_le full]
    exact .outside

end CStrings
