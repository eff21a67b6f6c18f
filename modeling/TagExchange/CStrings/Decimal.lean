import Mathlib.Algebra.Group.Int.Defs
import Mathlib.Algebra.Group.Nat.Defs
import Mathlib.Data.List.Basic

/-! Numbers printed in decimal, as the formats `%lu` and `%d` print them, and read back. -/

namespace CStrings

/-- `%lu`. -/
def printNat (n : Nat) : List Char := Nat.toDigits 10 n

/-- `%d`. -/
def printInt (n : Int) : List Char :=
  if n < 0 then Char.ofNat 45 :: printNat n.natAbs else printNat n.natAbs

/-- The number that a printed text stands for. -/
def readNat (text : List Char) : Nat := Nat.ofDigitChars 10 text 0

def readInt (text : List Char) : Int :=
  if text.head? = some (Char.ofNat 45) then -(readNat text.tail) else readNat text

theorem readNat_printNat (n : Nat) : readNat (printNat n) = n := Nat.ofDigitChars_ten_toDigits

theorem isDigit_of_mem_printNat {n : Nat} {c : Char} (member : c ∈ printNat n) : c.isDigit = true :=
  Nat.isDigit_of_mem_toDigits (by decide) (by decide) member

/-- The characters of a printed number are digits, or the sign. -/
theorem isDigit_of_mem_printInt {n : Int} {c : Char} (member : c ∈ printInt n)
    : c.isDigit = true ∨ c = Char.ofNat 45 := by
  unfold printInt at member
  split at member
  · rcases List.mem_cons.mp member with same | digit
    · exact .inr same
    · exact .inl (isDigit_of_mem_printNat digit)
  · exact .inl (isDigit_of_mem_printNat member)

/-- A printed number is read back, by cases on its sign. -/
theorem readInt_printInt (n : Int) : readInt (printInt n) = n := by
  unfold printInt
  split
  · next negative =>
      have read : readInt (Char.ofNat 45 :: printNat n.natAbs) = -(readNat (printNat n.natAbs) : Int) :=
        if_pos rfl
      rw [read, readNat_printNat]
      omega
  · next positive =>
      have unsigned : (printNat n.natAbs).head? ≠ some (Char.ofNat 45) := by
        intro sign
        have digit := isDigit_of_mem_printNat (List.mem_of_mem_head? sign)
        exact absurd digit (by decide)
      rw [readInt, if_neg unsigned, readNat_printNat]
      omega

theorem length_printNat_le_iff {n k : Nat} (some_ : 0 < k) : (printNat n).length ≤ k ↔ n < 10 ^ k :=
  Nat.length_toDigits_le_iff (by decide) some_

/-- The digits of a number are those of its tenth part, and one more. -/
theorem length_printNat (n : Nat)
    : (printNat n).length = if n < 10 then 1 else (printNat (n / 10)).length + 1 := by
  unfold printNat
  split
  · next single => rw [Nat.toDigits_of_lt_base single, List.length_singleton]
  · next more =>
      rw [Nat.toDigits_of_base_le (by decide) (Nat.le_of_not_lt more), List.length_append,
        List.length_singleton]

/-- An `int` takes at most eleven characters. -/
theorem length_printInt_le {n : Int} (low : -2 ^ 31 ≤ n) (high : n < 2 ^ 31)
    : (printInt n).length ≤ 11 := by
  have digits : (printNat n.natAbs).length ≤ 10 :=
    (length_printNat_le_iff (by decide)).mpr (by omega)
  unfold printInt
  split
  · rw [List.length_cons]
    omega
  · omega

end CStrings
