import LeaseLock.Text.Hexadecimal

/-!
# Percent encoding

**Writing** (`encoded`). A character that may not stand in a part of an address is written by its
bytes in UTF-8, each as a percent sign and two hexadecimal digits. Which characters may stand there
depends on the part.

**Reading** (`decodedBytes`, `decoded?`). A percent sign with two hexadecimal digits behind it
stands for a byte; any other byte stands for itself. The bytes need not be a text.
-/

namespace LeaseLock.Url

/-! ## Writing -/

/-- A byte by its two digits. -/
def encodedByte (b : UInt8) : List Char :=
  let digit (n : Nat) : Char := (Nat.digitChar n).toUpper
  ['%', digit (b.toNat / 16), digit (b.toNat % 16)]

/-- A character by its bytes. -/
def encodedChar (c : Char) : List Char := (String.utf8EncodeChar c).flatMap encodedByte

/-- The characters, with all those encoded that are not plain. -/
def encoded (plain : Char → Bool) (cs : List Char) : List Char :=
  cs.flatMap fun c => if plain c then [c] else encodedChar c

/-- A printable character of ASCII that leaves a mark. -/
def isVisible (c : Char) : Bool := 32 < c.toNat && c.toNat < 127

/-- The character stands for itself in a path. -/
def inPath (c : Char) : Bool := isVisible c && !("\"#<>?\x60\x7b\x7d".toList.contains c)

/-- The character stands for itself in a text that is no path of segments, or in a host. -/
def inOpaque (c : Char) : Bool := c == ' ' || isVisible c

/-- The character stands for itself in credentials. -/
def inCredentials (c : Char) : Bool := inPath c && !("/:;=@[\\]^|".toList.contains c)

/-- The character stands for itself in a query. -/
def inQuery (c : Char) : Bool := isVisible c && !("\"#<>".toList.contains c)

/-- The character stands for itself in a query on the web. -/
def inWebQuery (c : Char) : Bool := inQuery c && c != '\''

/-- The character stands for itself in a fragment. -/
def inFragment (c : Char) : Bool := isVisible c && !("\"<>\x60".toList.contains c)

/-! ## Reading -/

/-- The byte that two digits stand for. -/
def byteOf? (high low : UInt8) : Option UInt8 := do
  let high ← Text.Hexadecimal.digit? (Char.ofNat high.toNat)
  let low ← Text.Hexadecimal.digit? (Char.ofNat low.toNat)
  return UInt8.ofNat (high * 16 + low)

/-- The bytes that the bytes of an encoded text stand for. -/
def decodedBytes : List UInt8 → List UInt8
  | 0x25 :: high :: low :: bytes => match byteOf? high low with
    | some b => b :: decodedBytes bytes
    | none => 0x25 :: decodedBytes (high :: low :: bytes)
  | b :: bytes => b :: decodedBytes bytes
  | [] => []

/-- The bytes of a text. -/
def bytes (cs : List Char) : List UInt8 := cs.flatMap String.utf8EncodeChar

/-- The text that encoded characters stand for, if they do stand for one. -/
def decoded? (cs : List Char) : Option String :=
  String.fromUTF8? ⟨(decodedBytes (bytes cs)).toArray⟩

end LeaseLock.Url
