import TagExchange.Properties.InitialText

/-! `countCharsOfNumber` on machine integers: it counts the characters of every `long`, the most
negative one included.
-/

namespace TagExchange.Long

open CStrings

variable {n : Int64} {count : Int32}

/-- The loop adds the digits of its argument to the count, by induction on its steps. -/
theorem countDigits_toInt (positive : 0 ≤ count.toInt)
    (room : count.toInt + TagExchange.countDigits n.toInt.natAbs < 2 ^ 31)
    : (countDigits n count).toInt = count.toInt + TagExchange.countDigits n.toInt.natAbs := by
  induction n, count using countDigits.induct with
  | case1 count =>
      rw [countDigits, if_pos rfl, TagExchange.countDigits]
      simp
  | case2 n count some_ ih =>
      have value : n.toInt.natAbs ≠ 0 :=
        fun zero => some_ (Int64.toInt_inj.mp (Int.natAbs_eq_zero.mp zero))
      have digits
          : TagExchange.countDigits n.toInt.natAbs
            = TagExchange.countDigits (n / 10).toInt.natAbs + 1 := by
        rw [TagExchange.countDigits, if_neg value, natAbs_div_ten]
      have next : (count + 1).toInt = count.toInt + 1 := by
        have one : (1 : Int32).toInt = 1 := by decide
        rw [Int32.toInt_add, one]
        exact Int.bmod_eq_of_le (by omega) (by omega)
      rw [countDigits, if_neg some_, ih (by omega) (by omega)]
      omega

/-- Negation keeps the digits, also where it wraps around. -/
theorem natAbs_neg (n : Int64) : (-n).toInt.natAbs = n.toInt.natAbs := by
  have low := n.le_toInt
  have high := n.toInt_lt
  rw [Int64.toInt_neg]
  rcases Int.lt_or_eq_of_le low with above | lowest
  · rw [Int.bmod_eq_of_le (by omega) (by omega), Int.natAbs_neg]
  · rw [← lowest]
    decide

/-- A `long` has at most nineteen digits. -/
theorem countDigits_le (n : Int64) : TagExchange.countDigits n.toInt.natAbs ≤ 19 := by
  by_cases zero : n.toInt.natAbs = 0
  · rw [zero, TagExchange.countDigits]
    decide
  · rw [countDigits_eq zero, length_printNat_le_iff (by decide)]
    have low := n.le_toInt
    have high := n.toInt_lt
    omega

/-- `countCharsOfNumber` returns the number of characters that its argument is printed with, by
cases on its sign.
-/
theorem countCharsOfNumber_printed (n : Int64)
    : (countCharsOfNumber n).toInt = (printInt n.toInt).length := by
  have short := countDigits_le n
  rw [← countCharsOfNumber_eq, countCharsOfNumber, TagExchange.countCharsOfNumber]
  by_cases zero : n = 0
  · subst zero
    decide
  · have value : n.toInt ≠ 0 := fun same => zero (Int64.toInt_inj.mp same)
    have sign : n < 0 ↔ n.toInt < 0 := Int64.lt_iff_toInt_lt
    rw [if_neg zero, if_neg value]
    by_cases negative : n < 0
    · have one : (1 : Int32).toInt = 1 := by decide
      rw [if_pos negative, if_pos (sign.mp negative), countDigits_toInt, natAbs_neg, one]
      · rfl
      · decide
      · rw [natAbs_neg, one]
        omega
    · have none_ : (0 : Int32).toInt = 0 := by decide
      rw [if_neg negative, if_neg (sign.not.mp negative), countDigits_toInt, none_]
      · omega
      · decide
      · rw [none_]
        omega

end TagExchange.Long
