import YapAssist.Text.Basic

/-!
# Decimal numerals

Numbers on the command line and in a location are decimal. A numeral may carry a plus sign and
leading zeros; it is refused when it has no digit, any other character, or exceeds a bound.
-/

namespace YapAssist.Numeral

/-- The value of a digit. -/
def digitValue (c : Char) : Nat := c.toNat - '0'.toNat

/-- The number that decimal digits denote, after the value `high` of the digits before them. -/
def valueFrom (high : Nat) : Text → Nat
  | [] => high
  | c :: rest => valueFrom (high * 10 + digitValue c) rest

/-- The number that plain decimal digits denote, if it is not above `bound`. -/
def readDigits? (bound : Nat) (digits : Text) : Option Nat :=
  if digits.isEmpty || !digits.all Char.isDigit then none
  else
    let n := valueFrom 0 digits
    if n ≤ bound then some n else none

/-- The number that a numeral with an optional plus sign denotes, if it is not above `bound`. -/
def read? (bound : Nat) : Text → Option Nat
  | '+' :: digits => readDigits? bound digits
  | digits => readDigits? bound digits

/-- The decimal digits of a number, without leading zeros. -/
def write (n : Nat) : Text := Nat.toDigits 10 n

/-- The largest number of 32 bits. -/
def max32 : Nat := UInt32.size - 1

/-- The largest number of 64 bits. -/
def max64 : Nat := UInt64.size - 1

end YapAssist.Numeral
