import LeaseLock.Options

/-!
# Whole numbers in decimal

**Digits** (`value?`). One or more ASCII digits, leading zeros included, stand for a number.

**Signed numbers** (`signed?`). A sign may stand before the digits; the number has to be one of 64
bits.
-/

namespace LeaseLock.Text.Decimal

/-- The value of a digit. -/
def digitValue (c : Char) : Nat := c.toNat - '0'.toNat

/-- The number that a row of characters stands for if all of them are digits. -/
def value? (cs : List Char) : Option Nat :=
  if cs ≠ [] ∧ cs.all Char.isDigit then
    some (cs.foldl (fun n c => 10 * n + digitValue c) 0)
  else none

/-- The integer that lies in the range of 64 bits. -/
def inRange (n : Int) : Option Int :=
  if -(maxInt64 + 1 : Int) ≤ n ∧ n ≤ maxInt64 then some n else none

/-- The 64-bit integer that a text stands for. -/
def signed? (s : String) : Option Int :=
  match s.toList with
  | '-' :: cs => (value? cs).bind fun n => inRange (-(n : Int))
  | '+' :: cs => (value? cs).bind fun n => inRange n
  | cs => (value? cs).bind fun n => inRange n

end LeaseLock.Text.Decimal
