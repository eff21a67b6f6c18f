import Mathlib.Tactic.Ring
import TagExchange.CStrings.Numerals
import TagExchange.Model.DeviceNumbers
import TagExchange.Properties.PrintedWidth

/-! What the number functions of the device driver compute on machine integers: the length of the
first numbers, and the number that a string begins with.
-/

namespace TagExchange

open CStrings

namespace Long

variable {intPow : UInt64 → UInt32 → UInt64} {n : Int64}

/-- What the kernel says of `int_pow`: it raises to a power, in 64 bits. -/
def Raises (intPow : UInt64 → UInt32 → UInt64) : Prop :=
  ∀ base exp, intPow base exp = UInt64.ofNat (base.toNat ^ exp.toNat)

/-- The loop adds the powers of ten, by induction on its rounds. -/
theorem correct_eq (rounds k : Nat)
    : correct rounds (Int64.ofNat (10 ^ (k + 1))) (Int64.ofNat (powersUpTo k))
      = Int64.ofNat (powersUpTo (k + rounds)) := by
  induction rounds generalizing k with
  | zero => rfl
  | succ rounds ih =>
      have next : powersUpTo (k + 1) = powersUpTo k + 10 ^ (k + 1) := Finset.sum_range_succ ..
      have ten : (10 : Int64) = Int64.ofNat 10 := rfl
      rw [correct, ten, ← Int64.ofNat_mul, ← Int64.ofNat_add, ← Nat.pow_succ, ← next, ih,
        Nat.add_right_comm]
      rfl

/-- The sum modulo `2 ^ 64`: the wrapped operations add up to the formula for the digits. -/
theorem fastSomma_eq (raises : Raises intPow) (positive : 0 ≤ n)
    : fastSommaDelleCifreDaZeroFinoIncluso intPow n = Int64.ofNat (lengthsUpTo n.toInt.toNat) := by
  have low : 0 ≤ n.toInt := Int64.le_iff_toInt_le.mp positive
  obtain ⟨m, value⟩ := Int.eq_ofNat_of_zero_le low
  have count : (countCharsOfNumber n).toInt = (printNat m).length := by
    rw [countCharsOfNumber_printed, value]
    rfl
  have short : (printNat m).length ≤ 19 := by
    refine (length_printNat_le_iff (by decide)).mpr ?_
    have high := n.toInt_lt
    omega
  obtain ⟨k, length⟩ := Nat.exists_eq_succ_of_ne_zero (Nat.ne_of_gt (length_printNat_pos m))
  have total := lengthsUpTo_add m
  rw [length] at total count short
  have exponent : (countCharsOfNumber n - 1).toUInt32.toNat = k := by
    have one : (1 : Int32).toInt = 1 := by decide
    have less : (countCharsOfNumber n - 1).toInt = k := by
      rw [Int32.toInt_sub, count, one, Int.bmod_eq_of_le (by omega) (by omega)]
      omega
    have sign : 0 ≤ countCharsOfNumber n - 1 := by
      rw [Int32.le_iff_toInt_le, less]
      exact Int.natCast_nonneg k
    rw [Int32.toNat_toUInt32_of_le sign, Int32.toNatClampNeg, less]
    exact Int.toNat_natCast k
  have power : (intPow 10 (countCharsOfNumber n - 1).toUInt32).toInt64 = Int64.ofInt (10 ^ k) := by
    rw [raises, exponent, UInt64.toInt64_ofNat', ← Int64.ofInt_eq_ofNat]
    push_cast
    rfl
  have rounds : ((countCharsOfNumber n).toInt - 1).toNat = k := by omega
  have correction : correct k 10 0 = Int64.ofInt (powersUpTo k) := by
    have loop : correct k 10 0 = Int64.ofNat (powersUpTo (0 + k)) := correct_eq k 0
    rw [loop, Nat.zero_add, Int64.ofInt_eq_ofNat]
  have width : (countCharsOfNumber n).toInt64 = Int64.ofInt (k + 1) := by
    rw [← Int64.ofInt_int32ToInt, count]
    rfl
  have argument : n = Int64.ofInt m := by rw [← value, Int64.ofInt_toInt]
  have one : (1 : Int64) = Int64.ofInt 1 := rfl
  have sum : (lengthsUpTo m : Int) = (k + 1) * (m + 1) - powersUpTo k := by
    have total : (lengthsUpTo m : Int) + powersUpTo k = (k + 1) * (m + 1) := by exact_mod_cast total
    omega
  unfold fastSommaDelleCifreDaZeroFinoIncluso
  simp only [power, rounds, correction, width]
  rw [value, Int.toNat_natCast, argument, one, ← Int64.ofInt_eq_ofNat, sum]
  simp only [← Int64.ofInt_sub, ← Int64.ofInt_mul, ← Int64.ofInt_add]
  congr 1
  ring

/-- `fastSommaDelleCifreDaZeroFinoIncluso` returns the number of characters that the numbers from 0
to its argument are printed with, modulo `2 ^ 64`, and that number itself exactly where it fits a
`long`.
-/
theorem fastSomma_printed (raises : Raises intPow) (positive : 0 ≤ n)
    : (fastSommaDelleCifreDaZeroFinoIncluso intPow n).toInt
        = (lengthsUpTo n.toInt.toNat : Int).bmod (2 ^ 64)
      ∧ ((fastSommaDelleCifreDaZeroFinoIncluso intPow n).toInt = lengthsUpTo n.toInt.toNat
        ↔ lengthsUpTo n.toInt.toNat < 2 ^ 63) := by
  have wrapped
      : (fastSommaDelleCifreDaZeroFinoIncluso intPow n).toInt
        = (lengthsUpTo n.toInt.toNat : Int).bmod (2 ^ 64) := by
    rw [fastSomma_eq raises positive, ← Int64.ofInt_eq_ofNat, Int64.toInt_ofInt]
    rfl
  refine ⟨wrapped, fun exact_ => ?_, fun fits => ?_⟩
  · have high := (fastSommaDelleCifreDaZeroFinoIncluso intPow n).toInt_lt
    omega
  · rw [wrapped]
    exact Int.bmod_eq_of_le (by omega) (by omega)

/-- The numbers from 0 to 100 take 193 characters. -/
theorem fastSomma_printed_of_hundred
    : (fastSommaDelleCifreDaZeroFinoIncluso (fun base exp => UInt64.ofNat (base.toNat ^ exp.toNat))
        100).toInt
      = 193 := by
  have hundred : (100 : Int64).toInt.toNat = 100 := by decide
  have sum : lengthsUpTo 100 = 193 := by decide +kernel
  have printed := (fastSomma_printed (n := 100) (fun _ _ => rfl) (by decide)).2
  rw [hundred, sum] at printed
  exact printed.mpr (by decide)

end Long

-----------------------------------------------------------------------------------------
-- `my_atoi`
-----------------------------------------------------------------------------------------

variable {b : Block} {s : List Char}

/-- The next `int` to a number. -/
def nearest (n : Int) : Int := max (-2 ^ 31) (min n (2 ^ 31 - 1))

theorem isBlank_iff {c : Char} : isBlank c = true ↔ c = ' ' ∨ c = tab := by
  rw [isBlank, Bool.or_eq_true, decide_eq_true_eq, decide_eq_true_eq, tab]

/-- The blanks are skipped, by induction on the string. -/
theorem skipBlanks_eq (holds : Holds b s)
    : ∃ rest, skipBlanks b = some rest ∧ Holds rest (s.dropWhile isBlank) := by
  induction s generalizing b with
  | nil =>
      obtain ⟨clean, rest, rfl⟩ := holds
      have solid : ¬ (nul = ' ' ∨ nul = tab) := by decide
      exact ⟨nul :: rest, if_neg solid, holds_nil rest⟩
  | cons c s ih =>
      obtain ⟨clean, rest, rfl⟩ := holds
      rw [List.cons_append, skipBlanks]
      by_cases blank : isBlank c = true
      · rw [if_pos (isBlank_iff.mp blank), List.dropWhile_cons_of_pos blank]
        exact ih ⟨fun member => clean (List.mem_cons_of_mem _ member), rest, rfl⟩
      · rw [if_neg (isBlank_iff.not.mp blank), List.dropWhile_cons_of_neg blank]
        exact ⟨_, rfl, clean, rest, rfl⟩

theorem isDigit_iff {c : Char} : c.isDigit = true ↔ '0' ≤ c ∧ c ≤ '9' := by
  rw [Char.isDigit, Bool.and_eq_true, decide_eq_true_eq, decide_eq_true_eq]
  rfl

/-- A digit as an `int`. -/
theorem digit_toInt {c : Char} (digit : c.isDigit = true)
    : (Int32.ofNat (c.toNat - 48)).toInt = (c.toNat - 48 : Nat) ∧ c.toNat - 48 ≤ 9 := by
  have bounds : 48 ≤ c.toNat ∧ c.toNat ≤ 57 := Char.isDigit_iff_toNat.mp digit
  exact ⟨Int32.toInt_ofNat_of_lt (by omega), by omega⟩

/-- Reading more digits does not make a number smaller. -/
theorem le_ofDigitChars (l : List Char) (init : Nat) : init ≤ Nat.ofDigitChars 10 l init := by
  rw [Nat.ofDigitChars_eq_ofDigitChars_zero]
  have := Nat.le_mul_of_pos_left init (Nat.pow_pos (n := l.length) (show 0 < 10 by decide))
  omega

/-- The test of the loop: one more digit does not fit an `int`. -/
theorem overflows_iff {base digit : Int32} (positive : 0 ≤ base.toInt) (single : digit.toInt ≤ 9)
    (sign : 0 ≤ digit.toInt)
    : (base > INT_MAX / 10 ∨ base = INT_MAX / 10 ∧ digit > 7)
      ↔ 2 ^ 31 ≤ 10 * base.toInt + digit.toInt := by
  have tenth : (INT_MAX / 10).toInt = 214748364 := by decide
  have seven : (7 : Int32).toInt = 7 := by decide
  rw [gt_iff_lt, gt_iff_lt, Int32.lt_iff_toInt_lt, Int32.lt_iff_toInt_lt, ← Int32.toInt_inj, tenth,
    seven]
  omega

theorem sign_mul_toInt {sign base : Int32} (signs : sign = 1 ∨ sign = -1) (positive : 0 ≤ base.toInt)
    : (base * sign).toInt = nearest (sign.toInt * base.toInt) := by
  have high := base.toInt_lt
  have one : (1 : Int32).toInt = 1 := by decide
  have minus : (-1 : Int32).toInt = -1 := by decide
  unfold nearest
  rcases signs with rfl | rfl
  · rw [Int32.toInt_mul, one, Int.bmod_eq_of_le (by omega) (by omega)]
    omega
  · rw [Int32.toInt_mul, minus, Int.bmod_eq_of_le (by omega) (by omega)]
    omega

/-- What the loop returns for a number that does not fit is the nearest `int`. -/
theorem cut_toInt {sign : Int32} (signs : sign = 1 ∨ sign = -1) {n : Nat} (large : 2 ^ 31 ≤ n)
    : (if sign = 1 then INT_MAX else INT_MIN).toInt = nearest (sign.toInt * n) := by
  have one : (1 : Int32).toInt = 1 := by decide
  have minus : (-1 : Int32).toInt = -1 := by decide
  have highest : INT_MAX.toInt = 2 ^ 31 - 1 := by decide
  have lowest : INT_MIN.toInt = -2 ^ 31 := by decide
  unfold nearest
  rcases signs with rfl | rfl
  · rw [if_pos rfl, highest, one]
    omega
  · rw [if_neg (by decide), lowest, minus]
    omega

/-- The loop stops at what is no digit. -/
theorem readDigits_stops {sign base : Int32} (signs : sign = 1 ∨ sign = -1)
    (positive : 0 ≤ base.toInt) {c : Char} (rest : Block) (other : ¬ c.isDigit = true)
    : ∃ v,
        readDigits sign (c :: rest) base = some v
        ∧ v.toInt = nearest (sign.toInt * Nat.ofDigitChars 10 [] base.toInt.toNat) := by
  refine ⟨base * sign, if_neg (isDigit_iff.not.mp other), ?_⟩
  rw [Nat.ofDigitChars_nil, Int.toNat_of_nonneg positive, sign_mul_toInt signs positive]

/-- The digits are read up to what is none, and the number is cut to an `int`, by induction on the
string.
-/
theorem readDigits_eq {sign base : Int32} (signs : sign = 1 ∨ sign = -1) (positive : 0 ≤ base.toInt)
    (holds : Holds b s)
    : ∃ v,
        readDigits sign b base = some v
        ∧ v.toInt = nearest (sign.toInt * Nat.ofDigitChars 10 (numeral s) base.toInt.toNat) := by
  induction s generalizing b base with
  | nil =>
      obtain ⟨clean, rest, rfl⟩ := holds
      exact readDigits_stops signs positive rest (by decide)
  | cons c s ih =>
      obtain ⟨clean, rest, rfl⟩ := holds
      rw [List.cons_append]
      by_cases digit : c.isDigit = true
      · obtain ⟨digitValue, single⟩ := digit_toInt digit
        have test := overflows_iff positive (digitValue.trans_le (by omega)) (by omega)
        have more
            : Nat.ofDigitChars 10 (numeral (c :: s)) base.toInt.toNat
              = Nat.ofDigitChars 10 (numeral s) (10 * base.toInt.toNat + (c.toNat - 48)) := by
          rw [numeral, List.takeWhile_cons_of_pos digit, Nat.ofDigitChars_cons]
          rfl
        rw [readDigits, if_pos (isDigit_iff.mp digit), more]
        dsimp only
        by_cases overflows : 2 ^ 31 ≤ 10 * base.toInt + (Int32.ofNat (c.toNat - 48)).toInt
        · rw [if_pos (test.mpr overflows)]
          refine ⟨_, rfl, cut_toInt signs ?_⟩
          have grows :=
            le_ofDigitChars (numeral s) (10 * base.toInt.toNat + (c.toNat - 48))
          omega
        · have next
              : (10 * base + Int32.ofNat (c.toNat - 48)).toInt
                = 10 * base.toInt + (c.toNat - 48 : Nat) := by
            have ten : (10 : Int32).toInt = 10 := by decide
            have shifted : (10 * base).toInt = 10 * base.toInt := by
              rw [Int32.toInt_mul, ten, Int.bmod_eq_of_le (by omega) (by omega)]
            rw [Int32.toInt_add, shifted, digitValue, Int.bmod_eq_of_le (by omega) (by omega)]
          have number
              : 10 * base.toInt.toNat + (c.toNat - 48)
                = (10 * base + Int32.ofNat (c.toNat - 48)).toInt.toNat := by
            omega
          rw [if_neg (test.not.mpr overflows), number]
          exact ih (by omega) ⟨fun member => clean (List.mem_cons_of_mem _ member), rest, rfl⟩
      · have none_ : numeral (c :: s) = [] := List.takeWhile_cons_of_neg digit
        rw [none_]
        exact readDigits_stops signs positive _ digit

/-- The sign is read in front of the digits, by cases on the first character. -/
theorem myAtoi_eq (holds : Holds b s) : ∃ v, myAtoi b = some v ∧ v.toInt = nearest (number s) := by
  have zero : (0 : Int32).toInt = 0 := by decide
  have digits {sign : Int32} {b : Block} {s : List Char} (signs : sign = 1 ∨ sign = -1)
      (holds : Holds b s)
      : ∃ v,
          readDigits sign b 0 = some v
          ∧ v.toInt = nearest (sign.toInt * readNat (numeral s)) := by
    obtain ⟨v, read, value⟩ := readDigits_eq signs (Int.le_of_eq zero.symm) holds
    rw [zero] at value
    exact ⟨v, read, value⟩
  obtain ⟨block, skipped, solid⟩ := skipBlanks_eq holds
  rw [number, myAtoi, skipped, Option.bind_eq_bind, Option.bind_some]
  generalize s.dropWhile isBlank = text at solid
  have plain : (1 : Int32).toInt * readNat (numeral text) = readNat (numeral text) := Int.one_mul _
  cases text with
  | nil =>
      obtain ⟨clean, rest, rfl⟩ := solid
      obtain ⟨v, read, value⟩ := digits (.inl rfl) (holds_nil rest)
      exact ⟨v, read, value.trans (congrArg nearest plain)⟩
  | cons c text =>
      have whole := digits (.inl rfl) solid
      obtain ⟨clean, rest, rfl⟩ := solid
      have tail : Holds (text ++ nul :: rest) text :=
        ⟨fun member => clean (List.mem_cons_of_mem _ member), rest, rfl⟩
      have first : (c :: text ++ nul :: rest).head? = some c := rfl
      rw [signed, List.head?_cons, List.tail_cons, first, Option.bind_eq_bind, Option.bind_some]
      by_cases minus : c = '-'
      · subst minus
        obtain ⟨v, read, value⟩ := digits (.inr rfl) tail
        refine ⟨v, read, value.trans (congrArg nearest ?_)⟩
        rw [if_pos rfl]
        exact Int.neg_one_mul _
      · have unsigned : some c ≠ some '-' := fun same => minus (Option.some.inj same)
        rw [if_neg unsigned]
        by_cases plus : c = '+'
        · subst plus
          obtain ⟨v, read, value⟩ := digits (.inl rfl) tail
          refine ⟨v, read, value.trans (congrArg nearest ?_)⟩
          rw [if_pos rfl]
          exact Int.one_mul _
        · have positive : some c ≠ some '+' := fun same => plus (Option.some.inj same)
          rw [if_neg positive, if_neg (not_or.mpr ⟨minus, plus⟩)]
          obtain ⟨v, read, value⟩ := whole
          exact ⟨v, read, value.trans (congrArg nearest plain)⟩

/-- `my_atoi` reads the number that a string begins with, behind blanks and with its sign, and
returns the `int` that is nearest to it. So it reads every printed `int` back, whatever follows it but
a digit.
-/
theorem myAtoi_reads (holds : Holds b s)
    : ∃ v,
        myAtoi b = some v
        ∧ v.toInt = nearest (number s)
        ∧ ∀ blanks n rest,
            s = blanks ++ (printInt n ++ rest)
            → (∀ c ∈ blanks, isBlank c = true)
            → (∀ c, rest.head? = some c → c.isDigit = false)
            → IsInt n
            → v.toInt = n := by
  obtain ⟨v, read, value⟩ := myAtoi_eq holds
  refine ⟨v, read, value, fun blanks n rest text blank ends fits => ?_⟩
  rw [value, text, number_printInt blank ends, nearest]
  unfold IsInt at fits
  omega

/-- The number -42 is read from the middle of a line. -/
theorem myAtoi_reads_of_line
    : ∃ v, myAtoi ([tab, '-', '4', '2', tab, '7', nul]) = some v ∧ v.toInt = -42 := by
  have holds : Holds [tab, '-', '4', '2', tab, '7', nul] [tab, '-', '4', '2', tab, '7'] :=
    ⟨by decide, [], rfl⟩
  obtain ⟨v, read, -, printed⟩ := myAtoi_reads holds
  have blank : ∀ c ∈ [tab], isBlank c = true := List.forall_mem_singleton.mpr (by decide)
  refine ⟨v, read, printed [tab] (-42) [tab, '7'] (by decide) blank ?_ (by unfold IsInt; decide)⟩
  rintro c ⟨⟩
  decide

end TagExchange
