/-!
# Durations and instants

**Durations** (`Duration`). A span of time, exact to the nanosecond and without an upper bound.

**Instants** (`Instant`). A point in time, as the nanoseconds that have passed since the start.

**Text** (`Duration.text`). A duration is shown in the largest of the units s, ms, µs and ns of
which it has at least one, with every digit of the fraction that matters: `1.5ms`,
`2.000000001s`, `0ns`.
-/

namespace LeaseLock

/-- A span of time. -/
structure Duration where
  nanos : Nat
deriving DecidableEq, Repr, Inhabited

/-- A point in time: the nanoseconds since the start. -/
abbrev Instant := Nat

namespace Duration

instance : LE Duration := ⟨fun a b => a.nanos ≤ b.nanos⟩
instance : LT Duration := ⟨fun a b => a.nanos < b.nanos⟩
instance (a b : Duration) : Decidable (a ≤ b) := inferInstanceAs (Decidable (a.nanos ≤ b.nanos))
instance (a b : Duration) : Decidable (a < b) := inferInstanceAs (Decidable (a.nanos < b.nanos))

/-- The nanoseconds of a second. -/
def perSecond : Nat := 1000000000

/-- The nanoseconds of a millisecond. -/
def perMilli : Nat := 1000000

/-- A number of seconds and nanoseconds. -/
def ofParts (secs nanos : Nat) : Duration := ⟨secs * perSecond + nanos⟩

def ofSecs (secs : Nat) : Duration := ofParts secs 0

def ofMillis (millis : Nat) : Duration := ⟨millis * perMilli⟩

def secs (d : Duration) : Nat := d.nanos / perSecond

/-- The nanoseconds beyond the whole seconds. -/
def subsecond (d : Duration) : Nat := d.nanos % perSecond

/-- The whole milliseconds. -/
def millis (d : Duration) : Nat := d.nanos / perMilli

/-- Half the span, rounded down to a nanosecond. -/
def half (d : Duration) : Duration := ⟨d.nanos / 2⟩

def isZero (d : Duration) : Bool := d.nanos == 0

/-- The decimal digits of `n < 10 ^ width`, padded with zeros on the left. -/
def paddedDigits (width n : Nat) : List Char :=
  let ds := Nat.toDigits 10 n
  List.replicate (width - ds.length) '0' ++ ds

/-- A fraction of `n` parts in `10 ^ width`: the point and its digits up to the last that is not
zero, or nothing at all. -/
def fraction (width n : Nat) : List Char :=
  match ((paddedDigits width n).reverse.dropWhile (· == '0')).reverse with
  | [] => []
  | ds => '.' :: ds

/-- A number of units of `10 ^ width` nanoseconds each, with its fraction. -/
def inUnits (d : Duration) (width : Nat) (unit : String) : String :=
  let size := Nat.pow 10 width
  String.ofList (Nat.toDigits 10 (d.nanos / size) ++ fraction width (d.nanos % size)) ++ unit

/-- The duration in the largest unit of which it has at least one. -/
def text (d : Duration) : String :=
  if perSecond ≤ d.nanos then d.inUnits 9 "s"
  else if perMilli ≤ d.nanos then d.inUnits 6 "ms"
  else if 1000 ≤ d.nanos then d.inUnits 3 "µs"
  else d.inUnits 0 "ns"

/-- The instant that lies this far after `t`. -/
def after (d : Duration) (t : Instant) : Instant := t + d.nanos

end Duration

end LeaseLock
