import TagExchange.Model.DeviceText

/-! The two functions of the device driver on numbers that nothing in the module calls: the length of
the numbers up to a given one, and the number at the front of a string.
-/

namespace TagExchange

open CStrings

namespace Long

/-- The loop of `fastSommaDelleCifreDaZeroFinoIncluso`, from the rounds that are left. -/
def correct : Nat → Int64 → Int64 → Int64
  | 0, _, correzione => correzione
  | rounds + 1, sum, correzione => correct rounds (sum * 10) (correzione + sum)

/-- `fastSommaDelleCifreDaZeroFinoIncluso`, with the `int_pow` of the kernel. -/
def fastSommaDelleCifreDaZeroFinoIncluso (intPow : UInt64 → UInt32 → UInt64) (n : Int64) : Int64 :=
  let numeroCifre := countCharsOfNumber n
  let power := (intPow 10 (numeroCifre - 1).toUInt32).toInt64
  let ultimoNumeroConUnaCifraInMeno := power - 1
  let costante := numeroCifre.toInt64 * power
  let correzione := correct (numeroCifre.toInt - 1).toNat 10 0
  numeroCifre.toInt64 * (n - ultimoNumeroConUnaCifraInMeno) + (costante - correzione)

end Long

def INT_MAX : Int32 := 2147483647

def INT_MIN : Int32 := -2147483648

/-- The first loop of `my_atoi`: what stands behind the blanks. -/
def skipBlanks : Block → Option Block
  | [] => none
  | c :: rest => if c = ' ' ∨ c = tab then skipBlanks rest else some (c :: rest)

/-- The second loop of `my_atoi`, from the digits read so far. -/
def readDigits (sign : Int32) : Block → Int32 → Option Int32
  | [], _ => none
  | c :: rest, base =>
      if '0' ≤ c ∧ c ≤ '9' then
        let digit := Int32.ofNat (c.toNat - 48)
        if base > INT_MAX / 10 ∨ (base = INT_MAX / 10 ∧ digit > 7) then
          some (if sign = 1 then INT_MAX else INT_MIN)
        else readDigits sign rest (10 * base + digit)
      else some (base * sign)

/-- `my_atoi`. -/
def myAtoi (str : Block) : Option Int32 := do
  let str ← skipBlanks str
  let c ← str.head?
  if c = '-' ∨ c = '+' then
    readDigits (1 - 2 * (if c = '-' then 1 else 0)) str.tail 0
  else readDigits 1 str 0

end TagExchange
