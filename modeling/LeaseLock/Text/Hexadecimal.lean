/-!
# Hexadecimal digits

**Digits** (`digit?`). Sixteen characters stand for the numbers below sixteen; the letters among
them may be small or capital.
-/

namespace LeaseLock.Text.Hexadecimal

/-- The value of a digit. -/
def digit? (c : Char) : Option Nat :=
  if c.isDigit then some (c.toNat - '0'.toNat)
  else if 'a' ≤ c ∧ c ≤ 'f' then some (c.toNat - 'a'.toNat + 10)
  else if 'A' ≤ c ∧ c ≤ 'F' then some (c.toNat - 'A'.toNat + 10)
  else none

end LeaseLock.Text.Hexadecimal
