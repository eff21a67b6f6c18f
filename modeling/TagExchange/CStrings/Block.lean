import Mathlib.Data.List.Basic

/-! Blocks of memory with C strings in them, and the functions of the C library that copy, append
and print into such blocks. An access behind the end of a block has no result.
-/

namespace CStrings

/-- The contents of a block of memory. -/
abbrev Block := List Char

/-- The character that ends a string. -/
def nul : Char := Char.ofNat 0

/-- A block as the allocator hands it out, with the characters that it found there. -/
def fresh (found : Nat → Char) (n : Nat) : Block := (List.range n).map found

/-- The string in a block: what stands before its first `nul`. -/
def string : Block → Option (List Char)
  | [] => none
  | c :: rest => if c = nul then some [] else (string rest).map (c :: ·)

def strlen (b : Block) : Option Nat := (string b).map List.length

/-- What a copy of at most `n` characters reads of a string. -/
def readString : Block → Nat → Option (List Char)
  | _, 0 => some []
  | [], _ + 1 => none
  | c :: rest, n + 1 => if c = nul then some [] else (readString rest n).map (c :: ·)

/-- Writes characters into a block, from an index on. -/
def write (b : Block) (i : Nat) (text : List Char) : Option Block :=
  if i + text.length ≤ b.length then some (b.take i ++ text ++ b.drop (i + text.length)) else none

def memcpy (dst src : Block) (n : Nat) : Option Block :=
  if n ≤ src.length then write dst 0 (src.take n) else none

/-- A string shorter than `n` is filled up with `nul`, a longer one is not terminated. -/
def strncpy (dst src : Block) (n : Nat) : Option Block :=
  (readString src n).bind fun s => write dst 0 (s ++ List.replicate (n - s.length) nul)

/-- At most `n` characters are appended, and a terminator. -/
def strncat (dst src : Block) (n : Nat) : Option Block :=
  (string dst).bind fun s => (readString src n).bind fun t => write dst s.length (t ++ [nul])

/-- Prints a text and a terminator. -/
def sprintf (dst : Block) (text : List Char) : Option Block := write dst 0 (text ++ [nul])

/-- Prints at most `n` characters, the terminator among them. -/
def snprintf (dst : Block) : Nat → List Char → Option Block
  | 0, _ => some dst
  | n + 1, text => sprintf dst (text.take n)

@[simp] theorem length_fresh (found : Nat → Char) (n : Nat) : (fresh found n).length = n := by
  rw [fresh, List.length_map, List.length_range]

theorem getElem?_fresh {n i : Nat} (found : Nat → Char) (inside : i < n)
    : (fresh found n)[i]? = some (found i) := by
  rw [fresh, List.getElem?_map, List.getElem?_range inside]
  rfl

theorem drop_fresh {n i : Nat} (found : Nat → Char) (inside : i < n)
    : (fresh found n).drop i = found i :: (fresh found n).drop (i + 1) := by
  obtain ⟨bound, same⟩ := List.getElem?_eq_some_iff.mp (getElem?_fresh found inside)
  rw [List.drop_eq_getElem_cons bound, same]

-----------------------------------------------------------------------------------------
-- Blocks that hold a string
-----------------------------------------------------------------------------------------

/-- The block begins with the string and its terminator. -/
def Holds (b : Block) (s : List Char) : Prop :=
  nul ∉ s ∧ ∃ rest, b = s ++ nul :: rest

variable {b src dst : Block} {s t : List Char} {n : Nat}

theorem holds_nil (rest : List Char) : Holds (nul :: rest) [] := ⟨List.not_mem_nil, rest, rfl⟩

/-- A block that is found with `nul` in front holds the empty string. -/
theorem holds_fresh {found : Nat → Char} {n : Nat} (empty : found 0 = nul) (some_ : 0 < n)
    : Holds (fresh found n) [] := by
  obtain ⟨m, rfl⟩ := Nat.exists_eq_succ_of_ne_zero (Nat.ne_of_gt some_)
  rw [fresh, List.range_succ_eq_map, List.map_cons, empty]
  exact holds_nil _

theorem Holds.cons {c : Char} (char : c ≠ nul) (holds : Holds b s) : Holds (c :: b) (c :: s) := by
  obtain ⟨clean, rest, rfl⟩ := holds
  exact ⟨fun member => (List.mem_cons.mp member).elim (fun same => char same.symm) clean, rest, rfl⟩

/-- The string of a block is what the block holds, by induction on the block. -/
theorem string_eq_some_iff : string b = some s ↔ Holds b s := by
  induction b generalizing s with
  | nil =>
      constructor
      · intro same
        cases same
      · rintro ⟨-, rest, same⟩
        simp at same
  | cons c b ih =>
      rw [string]
      by_cases char : c = nul
      · rw [if_pos char]
        subst char
        constructor
        · rintro ⟨⟩
          exact holds_nil b
        · rintro ⟨clean, rest, same⟩
          cases s with
          | nil => rfl
          | cons d s =>
              obtain rfl := (List.cons.inj same).1
              exact absurd (List.mem_cons_self ..) clean
      · rw [if_neg char, Option.map_eq_some_iff]
        constructor
        · rintro ⟨s, found, rfl⟩
          exact (ih.mp found).cons char
        · rintro ⟨clean, rest, same⟩
          cases s with
          | nil => exact absurd (List.cons.inj same).1 char
          | cons d s =>
              obtain ⟨rfl, tail⟩ := List.cons.inj same
              exact ⟨s, ih.mpr ⟨fun member => clean (List.mem_cons_of_mem _ member), rest, tail⟩, rfl⟩

theorem Holds.string (holds : Holds b s) : string b = some s := string_eq_some_iff.mpr holds

theorem Holds.strlen (holds : Holds b s) : strlen b = some s.length := by
  rw [CStrings.strlen, holds.string]
  rfl

/-- A block holds one string. -/
theorem Holds.unique (holds : Holds b s) (other : Holds b t) : s = t :=
  Option.some.inj (holds.string.symm.trans other.string)

theorem Holds.length_lt (holds : Holds b s) : s.length < b.length := by
  obtain ⟨-, rest, rfl⟩ := holds
  simp

theorem Holds.drop (holds : Holds b s) {i : Nat} (inside : i ≤ s.length)
    : Holds (b.drop i) (s.drop i) := by
  obtain ⟨clean, rest, rfl⟩ := holds
  exact ⟨fun member => clean (List.mem_of_mem_drop member), rest, List.drop_append_of_le_length inside⟩

/-- A bounded copy reads the beginning of the string, by induction on the string. -/
theorem Holds.readString (holds : Holds b s) (n : Nat) : readString b n = some (s.take n) := by
  induction s generalizing b n with
  | nil =>
      obtain ⟨-, rest, rfl⟩ := holds
      cases n <;> simp [CStrings.readString]
  | cons c s ih =>
      obtain ⟨clean, rest, rfl⟩ := holds
      cases n with
      | zero => rfl
      | succ n =>
          have char : c ≠ nul := fun same => clean (same ▸ List.mem_cons_self ..)
          have inner := ih ⟨fun member => clean (List.mem_cons_of_mem _ member), rest, rfl⟩ n
          rw [List.cons_append, CStrings.readString, if_neg char, inner]
          rfl

/-- A bounded copy that ends before the string does reads no terminator. -/
theorem readString_of_prefix (clean : nul ∉ s) (rest : List Char)
    : readString (s ++ rest) s.length = some s := by
  induction s with
  | nil => cases rest <;> rfl
  | cons c s ih =>
      have char : c ≠ nul := fun same => clean (same ▸ List.mem_cons_self ..)
      rw [List.cons_append, List.length_cons, readString, if_neg char,
        ih fun member => clean (List.mem_cons_of_mem _ member)]
      rfl

-----------------------------------------------------------------------------------------
-- Writing
-----------------------------------------------------------------------------------------

theorem write_eq (b : Block) (i : Nat) (text : List Char) (fits : i + text.length ≤ b.length)
    : write b i text = some (b.take i ++ text ++ b.drop (i + text.length)) :=
  if_pos fits

theorem length_of_write {i : Nat} {b' : Block} (written : write b i t = some b')
    : b'.length = b.length := by
  unfold write at written
  split at written
  · next fits =>
      obtain rfl := Option.some.inj written
      simp only [List.length_append, List.length_take, List.length_drop]
      omega
  · cases written

/-- A text written with its terminator to the beginning of a block is the string of the block. -/
theorem write_terminated (clean : nul ∉ t) (pad : List Char)
    (fits : t.length + pad.length < b.length)
    : ∃ b', write b 0 (t ++ nul :: pad) = some b' ∧ Holds b' t ∧ b'.length = b.length := by
  have room : 0 + (t ++ nul :: pad).length ≤ b.length := by
    simp only [List.length_append, List.length_cons]
    omega
  have written := write_eq b 0 (t ++ nul :: pad) room
  refine ⟨_, written, ⟨clean, pad ++ b.drop (0 + (t ++ nul :: pad).length), ?_⟩, length_of_write written⟩
  simp

/-- Printing succeeds where there is room for the text and its terminator. -/
theorem sprintf_eq_some (clean : nul ∉ t) (fits : t.length < b.length)
    : ∃ b', sprintf b t = some b' ∧ Holds b' t ∧ b'.length = b.length :=
  write_terminated clean [] fits

theorem sprintf_eq_none (full : b.length ≤ t.length) : sprintf b t = none := by
  refine if_neg ?_
  simp only [List.length_append, List.length_singleton]
  omega

/-- Appending succeeds where there is room for both strings and the terminator. -/
theorem strncat_eq_some (first : Holds dst s) (second : Holds src t)
    (fits : s.length + (t.take n).length < dst.length)
    : ∃ b, strncat dst src n = some b ∧ Holds b (s ++ t.take n) ∧ b.length = dst.length := by
  have room : s.length + (t.take n ++ [nul]).length ≤ dst.length := by
    rw [List.length_append, List.length_singleton]
    omega
  refine ⟨dst.take s.length ++ (t.take n ++ [nul]) ++ dst.drop (s.length + (t.take n ++ [nul]).length),
    ?_, ⟨?_, dst.drop (s.length + (t.take n ++ [nul]).length), ?_⟩, ?_⟩
  · rw [strncat, first.string, second.readString]
    exact write_eq _ _ _ room
  · intro member
    exact (List.mem_append.mp member).elim first.1 fun member => second.1 (List.mem_of_mem_take member)
  · obtain ⟨-, rest, rfl⟩ := first
    simp
  · simp only [List.length_append, List.length_take, List.length_drop, List.length_singleton] at room ⊢
    omega

theorem strncat_eq_none (first : Holds dst s) (second : Holds src t)
    (full : dst.length ≤ s.length + (t.take n).length)
    : strncat dst src n = none := by
  rw [strncat, first.string, second.readString]
  refine if_neg ?_
  rw [List.length_append, List.length_singleton]
  omega

/-- A bounded copy with room for the terminator copies the string. -/
theorem strncpy_eq_some (holds : Holds src s) (longer : s.length < n) (fits : n ≤ dst.length)
    : ∃ b, strncpy dst src n = some b ∧ Holds b s ∧ b.length = dst.length := by
  obtain ⟨m, rfl⟩ := Nat.exists_eq_add_of_lt longer
  have whole : s.take (s.length + m + 1) = s := List.take_of_length_le (by omega)
  have padding : s.length + m + 1 - s.length = m + 1 := by omega
  rw [strncpy, holds.readString, whole, Option.bind_some, padding, List.replicate_succ]
  refine write_terminated holds.1 _ ?_
  rw [List.length_replicate]
  omega

/-- A bounded copy of a part of a string has no terminator. -/
theorem strncpy_prefix (clean : nul ∉ s) (rest : List Char) (fits : s.length ≤ dst.length)
    : strncpy dst (s ++ rest) s.length = some (s ++ dst.drop s.length) := by
  rw [strncpy, readString_of_prefix clean rest, Option.bind_some, Nat.sub_self, List.replicate_zero,
    List.append_nil, write_eq _ _ _ (by simpa using fits)]
  simp

/-- A bounded copy of a part of a string, with a terminator stored behind it. -/
theorem strncpy_terminated (clean : nul ∉ s) (rest : List Char) (found : Nat → Char)
    : ∃ b b',
        strncpy (fresh found (s.length + 1)) (s ++ rest) s.length = some b
        ∧ write b s.length [nul] = some b'
        ∧ Holds b' s := by
  have length : (fresh found (s.length + 1)).length = s.length + 1 := length_fresh found _
  have copied := strncpy_prefix clean rest (Nat.le_of_lt (by rw [length]; exact Nat.lt_succ_self _))
  have room : s.length + [nul].length ≤ (s ++ (fresh found (s.length + 1)).drop s.length).length := by
    simp
  refine ⟨_, _, copied, write_eq _ _ _ room, clean, [], ?_⟩
  simp

theorem strncpy_eq_none (holds : Holds src s) (full : dst.length < n) : strncpy dst src n = none := by
  rw [strncpy, holds.readString]
  refine if_neg ?_
  simp only [List.length_append, List.length_replicate, List.length_take]
  omega

/-- What `memcpy` takes of a string is terminated by what it finds in the destination. -/
theorem memcpy_string (holds : Holds src s) (fits : s.length < dst.length) (found : dst[s.length]? = some nul)
    : ∃ b, memcpy dst src s.length = some b ∧ Holds b s ∧ b.length = dst.length := by
  have inside := Nat.le_of_lt holds.length_lt
  have part : src.take s.length = s := by
    obtain ⟨-, rest, rfl⟩ := holds
    simp
  have room : 0 + s.length ≤ dst.length := by omega
  have copied : memcpy dst src s.length = some (dst.take 0 ++ s ++ dst.drop (0 + s.length)) := by
    rw [memcpy, if_pos inside, part]
    exact write_eq _ _ _ room
  obtain ⟨bound, same⟩ := List.getElem?_eq_some_iff.mp found
  refine ⟨_, copied, ⟨holds.1, dst.drop (s.length + 1), ?_⟩, ?_⟩
  · rw [Nat.zero_add, List.drop_eq_getElem_cons bound, same]
    rfl
  · simp
    omega

end CStrings
