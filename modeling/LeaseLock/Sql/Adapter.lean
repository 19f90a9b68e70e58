import LeaseLock.Remote
import LeaseLock.Sql.Database

/-!
# Locks in a table

**Taking the row** (`acquire`). In one transaction, a new row is added; if a row of that name is
there already, its owner and end are read, and a row that has ended is taken over. The new row is
added within a transaction of its own, so that its failure leaves the outer one usable. Whatever
goes wrong, the transaction is abandoned as a whole.

**Keeping and leaving it** (`refresh`, `release`). Only a row that carries our owner is moved or
taken away.

**Times** are readings of the wall clock in milliseconds, capped at the largest signed 64-bit
integer.
-/

namespace LeaseLock.Sql

/-- A talk with a database that ends early at a fault. -/
abbrev Exchange := ExceptT Fault (Talk Command Response)

/-- The fault as an error of the lock. -/
def Fault.lockError : Fault → LockError
  | duplicate => .unavailable "duplicate name"
  | refused reason => .unavailable reason

namespace Exchange

/-- What the database says to a command. -/
def response (c : Command) : Exchange Response := ExceptT.lift (Talk.question c)

/-- A command that has to succeed. -/
def require (c : Command) : Exchange Yield := ExceptT.mk (Talk.question c)

/-- A transaction, which is kept if nothing goes wrong and abandoned otherwise. -/
def transaction {α : Type} (body : Exchange α) : Exchange α := do
  discard (require .start)
  let kept : Exchange α := do
    let a ← body
    discard (require .commit)
    return a
  ExceptT.mk do
    match ← Talk.owing [.abandon] kept.run with
    | .ok a => return .ok a
    | .error fault =>
      Talk.notice .abandon
      return .error fault

/-- The result, with a fault as an error of the lock. -/
def result {α : Type} (e : Exchange α) : Talk Command Response (Except LockError α) := do
  match ← e.run with
  | .ok a => return .ok a
  | .error fault => return .error fault.lockError

end Exchange

open Exchange

/-- The end of a lease that starts at a reading of the clock. -/
def leaseEnd (reading : Int) (o : Options) : Int := min (reading + o.wholeMillis) maxInt64

/-- Adds the record; false if there is one of that name. -/
def addRow (reading : Int) (o : Options) : Exchange Bool := do
  discard (require .start)
  let values : List Value :=
    [.text o.name, .text o.owner, .time (leaseEnd reading o), .time reading, .time reading]
  match ← response (.execute .insertRow values) with
  | .ok _ =>
    discard (require .commit)
    return true
  | .error .duplicate =>
    discard (require .rollback)
    return false
  | .error fault => throw fault

/-- Reads the owner and the end of the record, if there is one. -/
def findRow (d : Dialect) (o : Options) : Exchange (Option (String × Int)) := do
  match ← require (.execute (.readRow d) [.text o.name]) with
  | .rows [] => return none
  | .rows ([.text owner, .time ends] :: _) => return some (owner, ends)
  | _ => throw (.refused "malformed row")

/-- Takes the record over if it has ended; says whether it had. -/
def takeOver (reading : Int) (o : Options) : Exchange Bool := do
  let values : List Value :=
    [.text o.owner, .time (leaseEnd reading o), .time reading, .text o.name, .time reading]
  return (← require (.execute .stealRow values)) == .changed 1

/-- Takes the row of the lock, unless it belongs to somebody and has not ended. -/
def acquire (d : Dialect) (reading : Int) (o : Options) :
    Talk Command Response (Except LockError Attempt) :=
  Exchange.result <| transaction do
    if ← addRow reading o then return .granted
    match ← findRow d o with
    | none => return .occupied none
    | some (owner, ends) =>
      if reading ≤ ends then return .occupied (some owner)
      return if ← takeOver reading o then .granted else .occupied (some owner)

/-- Moves the end of our row. -/
def refresh (reading : Int) (o : Options) : Talk Command Response (Except LockError Unit) := do
  let values : List Value :=
    [.time (leaseEnd reading o), .time reading, .text o.name, .text o.owner]
  match ← (require (.execute .refreshRow values)).result with
  | .ok (.changed 0) => return .error (.lost (.row o.name o.owner))
  | .ok _ => return .ok ()
  | .error e => return .error e

/-- Takes our row away. -/
def release (o : Options) : Talk Command Response (Except LockError Unit) := do
  match ← (require (.execute .deleteRow [.text o.name, .text o.owner])).result with
  | .ok _ => return .ok ()
  | .error e => return .error e

/-- The operations on the table. The clock tells its reading at each call from the number of calls
before it. -/
def adapter (d : Dialect) (clock : Nat → Int) : Adapter Command Response Empty := fun e op =>
  let reading := clock e.calls
  match op with
  | .acquire => do return (none, .acquire (← acquire d reading e.options))
  | .refresh => do return (none, .refresh (← refresh reading e.options))
  | .release => do return (none, .release (← release e.options))

end LeaseLock.Sql
