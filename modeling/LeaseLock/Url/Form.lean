import LeaseLock.Text.Pieces
import LeaseLock.Url.Percent

/-!
# Forms

A form is a row of names with values, written into the query of an address: a pair is a name, an
equals sign and a value, and an ampersand stands between pairs.

**Writing** (`formEncoded`). Letters, digits and a few marks stand for themselves, a plus sign
stands for a space, and the rest is percent-encoded.

**Reading** (`formPairs?`). Empty pairs are skipped, and a pair may lack its value.
-/

namespace LeaseLock.Url

/-- The character stands for itself in a form. -/
def inForm (c : Char) : Bool := c.isAlphanum || "*-._".toList.contains c

/-- A name or value as it is written. -/
def formEncoded (s : String) : String :=
  String.ofList (s.toList.flatMap fun c =>
    if c = ' ' then ['+'] else if inForm c then [c] else encodedChar c)

/-- The name or value that is written so, if it is a text. -/
def formDecoded? (cs : List Char) : Option String :=
  decoded? (cs.map fun c => if c = '+' then ' ' else c)

/-- The pairs of a form, if all of them are texts. -/
def formPairs? (cs : List Char) : Option (List (String × String)) :=
  ((Text.pieces (· == '&') cs).filter (· ≠ [])).mapM fun pair => do
    let (name, value) := Text.cut (· == '=') pair
    return (← formDecoded? name, ← formDecoded? value)

end LeaseLock.Url
