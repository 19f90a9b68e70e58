import LeaseLock.Call
import LeaseLock.Guard
import LeaseLock.Options
import LeaseLock.Renewal

/-!
# Lockers

**The state** (`Locker`). A locker is idle, held or released. Around that stand the line for its
guard, the calls that are being made on it, the renewal loop while there is one, and, once the
locker has been dropped, the errand that gives its record back.

**Callers** (`Caller`). A call on a locker waits for the guard, asks the service, or, between two
attempts to acquire, naps.

**The closer** (`Closer`). A dropped locker that was held owes a release. If the guard was free
at the drop, the locker counts as released and the release can go out; otherwise the errand takes
its turn in the line first.
-/

namespace LeaseLock

/-- What a locker has come to. -/
inductive Phase where
  /-- Not holding the lock; it may be taken. -/
  | idle
  /-- The lock was taken, and is being renewed. -/
  | held
  | released
deriving DecidableEq, Repr

/-- What a caller asks of a locker. -/
inductive Verb where
  /-- One attempt to take the lock. -/
  | lock
  /-- Attempts until the lock is taken or the limit has passed. -/
  | acquire (limit : Option Duration)
  | unlock
  /-- Push the record's expiry now. -/
  | refresh
  | state
deriving DecidableEq, Repr

/-- The service's operation behind a caller's wish, if there is one. -/
def Verb.op : Verb → Option Op
  | lock | acquire _ => some .acquire
  | unlock => some .release
  | refresh => some .refresh
  | state => none

/-- What a call on a locker is doing. -/
inductive Caller.Stage where
  /-- It stands in line for the guard. -/
  | waiting
  /-- It has the guard and has asked the service. -/
  | calling (since : Instant)
  /-- It sleeps until the next attempt. -/
  | napping (til : Instant)
deriving DecidableEq, Repr

/-- A call on a locker. -/
structure Caller where
  verb : Verb
  began : Instant
  /-- How far the call has come. -/
  stage : Caller.Stage := .waiting
deriving DecidableEq, Repr

/-- What a call on a locker returns. -/
inductive Returned where
  /-- Nothing but success. -/
  | done
  | state (s : Phase)
deriving DecidableEq, Repr

/-- The errand of a dropped locker. -/
inductive Closer where
  /-- The locker counts as released; a release is owed. -/
  | armed
  /-- The guard was taken at the drop; the errand has not joined the line yet. -/
  | blocked
  /-- It stands in line for the guard. -/
  | waiting
  /-- It has asked the service to release the record. -/
  | calling (since : Instant)
deriving DecidableEq, Repr

/-- One party's handle on a lock. -/
structure Locker where
  options : Options
  /-- Idle, held or released. -/
  phase : Phase := .idle
  health : Health := .idle
  /-- The line for its guard. -/
  guard : Guard := {}
  /-- The calls under way, by number. -/
  callers : List (Nat × Caller) := []
  ticker : Option Ticker := none
  /-- The errand of a dropped locker, while it is under way. -/
  closer : Option Closer := none
  /-- The last handle is gone. -/
  dropped : Bool := false
deriving DecidableEq, Repr

namespace Locker

/-- A new locker; the options have to be usable. -/
def make (o : Options) : Except LockError Locker :=
  o.check.map fun () => { options := o }

/-- The locker on one line: its options and the name of its service. -/
def describe (l : Locker) (service : String) : String :=
  "Locker \x7b options: " ++ l.options.describe ++ ", backend: " ++ Text.quoted service ++ " \x7d"

def caller? (l : Locker) (n : Nat) : Option Caller := l.callers.lookup n

/-- Registers a call under a fresh number. -/
def addCaller (l : Locker) (n : Nat) (c : Caller) : Locker :=
  { l with callers := l.callers ++ [(n, c)] }

/-- Puts the call with the given number into a new stage. -/
def moveCaller (l : Locker) (n : Nat) (stage : Caller.Stage) : Locker :=
  { l with callers := l.callers.map fun p => if p.1 = n then (n, { p.2 with stage }) else p }

/-- Takes the call with the given number off, out of the line too. -/
def removeCaller (l : Locker) (n : Nat) : Locker :=
  { l with
    callers := l.callers.filter fun p => p.1 ≠ n
    guard := l.guard.leave (.caller n) }

/-- Ends the renewal loop, wherever it stands. -/
def stopTicker (l : Locker) : Locker :=
  { l with ticker := none, guard := l.guard.leave .ticker }

end Locker

end LeaseLock
