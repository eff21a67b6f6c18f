import Mathlib.Algebra.BigOperators.Group.Finset.Basic
import TagExchange.CStrings.Decimal

/-! Numbers in a text: the number that a text begins with, and how many characters the numbers up to
a given one are printed with.
-/

namespace CStrings

-----------------------------------------------------------------------------------------
-- The number at the front
-----------------------------------------------------------------------------------------

/-- A space or a tab. -/
def isBlank (c : Char) : Bool := c = ' ' || c = Char.ofNat 9

/-- The digits that a text begins with. -/
def numeral (s : List Char) : List Char := s.takeWhile Char.isDigit

/-- The number that a text begins with, its sign in front; 0 where there are no digits. -/
def signed (s : List Char) : Int :=
  if s.head? = some '-' then -(readNat (numeral s.tail))
  else if s.head? = some '+' then readNat (numeral s.tail)
  else readNat (numeral s)

/-- The number that a text begins with, behind blanks. -/
def number (s : List Char) : Int := signed (s.dropWhile isBlank)

variable {digits rest blanks : List Char} {n : Int}

/-- Digits are read up to what is none. -/
theorem numeral_append (all : ∀ c ∈ digits, c.isDigit = true)
    (ends : ∀ c, rest.head? = some c → c.isDigit = false)
    : numeral (digits ++ rest) = digits := by
  rw [numeral, List.takeWhile_append_of_pos all]
  cases rest with
  | nil => simp
  | cons c rest => simp [ends c rfl]

theorem numeral_printNat {n : Nat} (ends : ∀ c, rest.head? = some c → c.isDigit = false)
    : readNat (numeral (printNat n ++ rest)) = n := by
  rw [numeral_append (fun c => isDigit_of_mem_printNat) ends, readNat_printNat]

theorem printNat_ne_nil (n : Nat) : printNat n ≠ [] := by
  intro empty
  have length := length_printNat n
  rw [empty, List.length_nil] at length
  split at length <;> omega

theorem isBlank_of_isDigit {c : Char} (digit : c.isDigit = true) : isBlank c = false := by
  by_contra blank
  rw [Bool.not_eq_false, isBlank, Bool.or_eq_true, decide_eq_true_eq, decide_eq_true_eq] at blank
  rcases blank with rfl | rfl <;> exact absurd digit (by decide)

theorem printNat_eq_cons (n : Nat) : ∃ c s, printNat n = c :: s ∧ c.isDigit = true := by
  obtain ⟨c, s, printed⟩ := List.exists_cons_of_ne_nil (printNat_ne_nil n)
  exact ⟨c, s, printed, isDigit_of_mem_printNat (printed ▸ List.mem_cons_self ..)⟩

/-- A printed number begins with no blank. -/
theorem dropWhile_printInt (n : Int) (rest : List Char)
    : (printInt n ++ rest).dropWhile isBlank = printInt n ++ rest := by
  unfold printInt
  split
  · rw [List.cons_append, List.dropWhile_cons_of_neg (by decide)]
  · obtain ⟨c, s, printed, digit⟩ := printNat_eq_cons n.natAbs
    rw [printed, List.cons_append, List.dropWhile_cons_of_neg (by simp [isBlank_of_isDigit digit])]

/-- A printed number is read back from any text that goes on with no digit, by cases on its sign. -/
theorem number_printInt (blank : ∀ c ∈ blanks, isBlank c = true)
    (ends : ∀ c, rest.head? = some c → c.isDigit = false)
    : number (blanks ++ (printInt n ++ rest)) = n := by
  have read := numeral_printNat (n := n.natAbs) ends
  rw [number, List.dropWhile_append_of_pos blank, dropWhile_printInt]
  unfold printInt
  split
  · have sign : Char.ofNat 45 = '-' := by decide
    rw [signed, List.cons_append, List.head?_cons, sign, if_pos rfl, List.tail_cons, read]
    omega
  · obtain ⟨c, s, printed, digit⟩ := printNat_eq_cons n.natAbs
    have other (d : Char) (sign : d.isDigit = false)
        : (printNat n.natAbs ++ rest).head? ≠ some d := by
      rw [printed, List.cons_append, List.head?_cons]
      rintro ⟨⟩
      exact absurd (digit.symm.trans sign) (by decide)
    rw [signed, if_neg (other '-' (by decide)), if_neg (other '+' (by decide)), read]
    omega

-----------------------------------------------------------------------------------------
-- The lengths of the first numbers
-----------------------------------------------------------------------------------------

/-- The characters of all numbers up to a given one. -/
def lengthsUpTo (n : Nat) : Nat := ∑ i ∈ Finset.range (n + 1), (printNat i).length

/-- The powers of ten from the first to a given one. -/
def powersUpTo (k : Nat) : Nat := ∑ i ∈ Finset.range k, 10 ^ (i + 1)

theorem length_printNat_pos (n : Nat) : 0 < (printNat n).length :=
  List.length_pos_iff.mpr (printNat_ne_nil n)

/-- The next number is as long, or is the next power of ten. -/
theorem length_printNat_succ (n : Nat)
    : (printNat (n + 1)).length = (printNat n).length
      ∨ (printNat (n + 1)).length = (printNat n).length + 1 ∧ n + 1 = 10 ^ (printNat n).length := by
  have some_ := length_printNat_pos n
  have next := length_printNat_pos (n + 1)
  have here : n < 10 ^ (printNat n).length := (length_printNat_le_iff some_).mp (Nat.le_refl _)
  -- A number is at least as long as the one before it.
  have grows : (printNat n).length ≤ (printNat (n + 1)).length :=
    (length_printNat_le_iff next).mpr
      (Nat.lt_of_succ_lt ((length_printNat_le_iff next).mp (Nat.le_refl _)))
  have shorter := length_printNat_le_iff (n := n + 1) some_
  rcases Nat.lt_or_eq_of_le here with below | power
  · exact .inl (Nat.le_antisymm (shorter.mpr below) grows)
  · refine .inr ⟨Nat.le_antisymm ?_ ?_, power⟩
    · refine (length_printNat_le_iff (Nat.succ_pos _)).mpr ?_
      rw [← Nat.succ_eq_add_one n, power]
      exact Nat.pow_lt_pow_right (by decide) (Nat.lt_succ_self _)
    · exact Nat.lt_of_not_le fun short => absurd (shorter.mp short) (power ▸ Nat.lt_irrefl _)

/-- If all numbers up to one were as long as that one, they would have one character more for each
power of ten that they do not reach.
-/
theorem lengthsUpTo_add (n : Nat)
    : lengthsUpTo n + powersUpTo ((printNat n).length - 1) = (printNat n).length * (n + 1) := by
  induction n with
  | zero => decide
  | succ n ih =>
      have next : lengthsUpTo (n + 1) = lengthsUpTo n + (printNat (n + 1)).length :=
        Finset.sum_range_succ ..
      rw [next]
      rcases length_printNat_succ n with same | ⟨longer, power⟩
      · rw [same, Nat.mul_succ, ← ih]
        omega
      · obtain ⟨k, length⟩ := Nat.exists_eq_succ_of_ne_zero (Nat.ne_of_gt (length_printNat_pos n))
        have powers : powersUpTo (k + 1) = powersUpTo k + 10 ^ (k + 1) := Finset.sum_range_succ ..
        rw [length] at ih power longer
        rw [longer, Nat.add_sub_cancel, powers, ← power, Nat.mul_succ, Nat.succ_mul, ← ih]
        simp only [Nat.succ_eq_add_one, Nat.add_sub_cancel]
        omega

end CStrings
