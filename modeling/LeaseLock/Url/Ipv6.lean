import LeaseLock.Text.Decimal
import LeaseLock.Text.Hexadecimal
import LeaseLock.Text.Pieces

/-!
# IPv6 addresses

**Addresses** (`isIpv6`). Eight groups of one to four hexadecimal digits, with colons between them.
Two colons at one place stand for one group of zeros or more, and the last two groups may be written
as four decimal numbers.
-/

namespace LeaseLock.Url

/-- A group of one to four digits. -/
def isGroup (cs : List Char) : Bool :=
  !cs.isEmpty && cs.length ≤ 4 && cs.all fun c => (Text.Hexadecimal.digit? c).isSome

/-- A number below 256 without leading zeros. -/
def isOctet (cs : List Char) : Bool :=
  (Text.Decimal.value? cs).any (· < 256) && (cs.head? != some '0' || cs.length == 1)

/-- Four numbers with points between them. -/
def isDotted (cs : List Char) : Bool :=
  let octets := Text.pieces (· == '.') cs
  octets.length == 4 && octets.all isOctet

/-- How many groups are written, where the last ones may be written as four numbers. -/
def groups? : List (List Char) → Option Nat
  | [] => some 0
  | [s] => if isGroup s then some 1 else if isDotted s then some 2 else none
  | s :: ss => if isGroup s then (groups? ss).map (· + 1) else none

/-- What stands before the first two colons, and what stands behind them if they are there. -/
def halves : List Char → List Char × Option (List Char)
  | ':' :: ':' :: cs => ([], some cs)
  | c :: cs => let (before, behind) := halves cs; (c :: before, behind)
  | [] => ([], none)

/-- The groups that stand in a half, which may be empty. -/
def half (cs : List Char) : List (List Char) :=
  if cs.isEmpty then [] else Text.pieces (· == ':') cs

/-- The text is an address. -/
def isIpv6 (cs : List Char) : Bool :=
  match halves cs with
  | (all, none) => groups? (half all) == some 8
  | (before, some behind) =>
    let before := half before
    before.all isGroup && (groups? (half behind)).any fun n => before.length + n ≤ 7

end LeaseLock.Url
