import LeaseLock.Text.Pieces
import LeaseLock.Url.Percent

/-!
# Paths

**Texts of addresses** (`cleaned`). Blanks at the ends, and line breaks and tabs anywhere, do not
count.

**Paths** (`resolve`). A path is followed segment by segment. The segments `.` and `..`, which may
be percent-encoded, stand for the place reached so far and for the place above it. The name of a
drive, a letter with a colon or a bar, is a place that `..` does not leave.
-/

namespace LeaseLock.Url

/-- The text without blanks and controls at its ends, and without line breaks and tabs. -/
def cleaned (s : String) : List Char :=
  let blank (c : Char) : Bool := c.toNat ≤ 32
  let trimmed := ((s.toList.dropWhile blank).reverse.dropWhile blank).reverse
  trimmed.filter fun c => c ≠ '\t' ∧ c ≠ '\n' ∧ c ≠ '\r'

/-- The segment stands for the place where it is. -/
def isHere (segment : List Char) : Bool :=
  [".", "%2e"].contains (String.ofList (segment.map Char.toLower))

/-- The segment stands for the place above. -/
def isAbove (segment : List Char) : Bool :=
  ["..", ".%2e", "%2e.", "%2e%2e"].contains (String.ofList (segment.map Char.toLower))

/-- The segment names a drive. -/
def isDrive : List Char → Bool
  | [letter, mark] => letter.isAlpha && (mark == ':' || mark == '|')
  | _ => false

/-- The place above a place. -/
def above : List (List Char) → List (List Char)
  | [] => []
  | s :: place => if isDrive s then s :: place else place

/-- Follows segments from a place, which is given by its own segments, last first. -/
def follow (place : List (List Char)) : List (List Char) → List (List Char)
  | [] => place
  | s :: ss =>
    let ending := if ss.isEmpty then [[]] else []
    if isAbove s then follow (ending ++ above place) ss
    else if isHere s then follow (ending ++ place) ss
    else follow (encoded inPath s :: place) ss

/-- The path to which segments lead. -/
def resolve (segments : List (List Char)) : String :=
  String.ofList ((follow [] segments).reverse.flatMap fun s => '/' :: s)

end LeaseLock.Url
