import LeaseLock.Text.Extender

/-!
# Quoted text

How names and owners are shown in messages: between double quotes, with every character that a
reader could miss or mistake written out.

**Escapes** (`shown`). A quote and a backslash get a backslash before them; tab, line feed,
carriage return and the zero character have letters of their own; a character that has no
printed form, or that extends the one before it, is given by its code point. Everything else
stands for itself.
-/

namespace LeaseLock.Text

/-- A number in lower-case hexadecimal, without leading zeros. -/
def hexadecimal (n : Nat) : List Char := Nat.toDigits 16 n

/-- A character given by its code point. -/
def codePoint (c : Char) : List Char :=
  ['\\', 'u', '\x7b'] ++ hexadecimal c.toNat ++ ['\x7d']

/-- One character as it stands between the quotes. -/
def shown (c : Char) : List Char :=
  match c with
  | '\x00' => ['\\', '0']
  | '\t' => ['\\', 't']
  | '\n' => ['\\', 'n']
  | '\r' => ['\\', 'r']
  | '"' => ['\\', '"']
  | '\\' => ['\\', '\\']
  | c => if isExtender c || isUnprintable c then codePoint c else [c]

/-- The text between double quotes, with escapes. -/
def quoted (s : String) : String :=
  String.ofList ('"' :: s.toList.flatMap shown ++ ['"'])

end LeaseLock.Text
