/-!
# Taking turns

**The guard** (`Guard`). The operations of one locker run one at a time. Those who want a turn
stand in one line: the first in the line has the guard, the others wait behind it in the order in
which they came. Leaving the line, from whatever place, passes the guard on if it was held.

**Parties** (`Party`). Besides its callers, a locker has two parties of its own: the renewal
loop, and the errand that gives a dropped lock back.
-/

namespace LeaseLock

/-- Who may ask for the guard of a locker. -/
inductive Party where
  | caller (n : Nat)
  /-- The renewal loop. -/
  | ticker
  /-- The errand that gives a dropped lock back. -/
  | closer
deriving DecidableEq, Repr

/-- The line of parties at a locker. -/
structure Guard where
  /-- The parties in order; the first one has the guard. -/
  line : List Party := []
deriving DecidableEq, Repr

namespace Guard

/-- The party that has the guard. -/
def holder (g : Guard) : Option Party := g.line.head?

/-- Nobody has the guard, and nobody waits for it. -/
def isFree (g : Guard) : Bool := g.line.isEmpty

/-- The party takes its place at the end of the line. -/
def join (g : Guard) (p : Party) : Guard := ⟨g.line ++ [p]⟩

/-- The party leaves the line. -/
def leave (g : Guard) (p : Party) : Guard := ⟨g.line.erase p⟩

end Guard

end LeaseLock
