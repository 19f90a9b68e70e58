import LeaseLock.Call
import LeaseLock.Guard
import LeaseLock.Options

/-!
# Services

**Who calls** (`Site`). A call to a service comes from a party at a locker, or goes past the
locker's guard (`Seat.direct`). Each locker has an adapter of its own, so the service may keep
something per locker.

**Reception** (`Reception`). A service takes a call and either answers on the spot, names the
instant at which its answer will come, or never answers.

**The class** (`Service`). What a service does with a call, and what it does when a pending
answer arrives or its caller has gone.
-/

namespace LeaseLock

/-- From where in a locker a call is made. -/
inductive Seat where
  /-- By a party, under the locker's rules. -/
  | party (p : Party)
  /-- Past the locker, by number. -/
  | direct (n : Nat)
deriving DecidableEq, Repr

/-- The origin of a call. -/
structure Site where
  home : Nat
  seat : Seat
  /-- The options the locker was made with. -/
  own : Options
deriving DecidableEq, Repr

/-- How a service receives a call. -/
inductive Reception where
  /-- It answers on the spot. -/
  | answered (a : Answer)
  /-- It will answer at the given instant. -/
  | due (landing : Instant) (a : Answer)
  /-- It never answers. -/
  | silent

/-- A coordination service, with the adapters of all lockers. -/
class Service (σ : Type) where
  /-- Takes a call with the options given, at an instant. -/
  begin : σ → Site → Options → Op → Instant → σ × Reception
  /-- A pending answer has reached its caller. -/
  landed : σ → Site → Op → Instant → σ := fun s _ _ _ => s
  /-- A pending call was dropped by its caller. -/
  cut : σ → Site → Op → Instant → σ := fun s _ _ _ => s

end LeaseLock
