import LeaseLock.Sql.Adapter
import LeaseLock.Sql.Address

/-!
# Setting up locks in a table

**The configuration** (`Setup`). Which database holds the lock table, what the table is called,
and which dialect to use if it is not to be detected.

**Opening** (`Setup.openTable`). The faults are found in a fixed order: the table's name, a missing
database, a database that cannot be opened, an unknown dialect, a table that cannot be made.
-/

namespace LeaseLock.Sql

/-- Where the database comes from. -/
inductive Source where
  /-- It is opened at an address. -/
  | address (a : Address)
  /-- It is open already, with the given number of connections. -/
  | opened (connections : Nat)
deriving DecidableEq, Repr

/-- The configuration of locks in a table. -/
structure Setup where
  /-- The database, if one is given. -/
  source : Option Source := none
  /-- The name of the table. -/
  table : String := "distributed_locks"
  /-- The dialect, if it is not to be detected. -/
  dialect : Option Dialect := none
deriving DecidableEq, Repr

/-- A lock table that is ready for use. -/
structure Table where
  /-- The dialect in which it is spoken to. -/
  dialect : Dialect
  name : String
  connections : Nat
deriving DecidableEq, Repr

/-- How many connections the database has, once it is open. -/
def Source.connect : Source → Except LockError Nat
  | address a =>
    if a.opens then .ok a.connections
    else .error (.unavailable "unable to open the database")
  | opened connections => .ok connections

/-- Accepts a table's name that is a plain identifier. -/
def checkTable (table : String) : Except LockError Unit :=
  match tableFault? table with
  | some fault => .error (.misconfigured fault)
  | none => .ok ()

/-- Opens the embedded engine's database, and makes the table. -/
def Setup.openTable (s : Setup) : Except LockError Table := do
  checkTable s.table
  let source ← match s.source with
    | some source => .ok source
    | none => .error (.misconfigured .noConnection)
  let connections ← source.connect
  let dialect ← match s.dialect with
    | some d => .ok d
    | none => Dialect.ofKind "SQLite"
  if Engine.refusesTable s.table then .error (.unavailable "the table cannot be made")
  else .ok ⟨dialect, s.table, connections⟩

/-- The lock table of a fresh database, under a clock. -/
def Table.remote (t : Table) (clock : Nat → Int) : Remote Database Command Response Empty where
  server := { table := some [] }
  adapter := adapter t.dialect clock

end LeaseLock.Sql
