import LeaseLock.Sql.Statement
import LeaseLock.Talk

/-!
# Databases

**Rows** (`Row`). The lock table holds a row for each record, in the order in which they were
added. No two rows have the same name.

**Statements on rows** (`Database.execute`). A statement is carried out on the rows with a list of
values for its open places. A statement that cannot be carried out changes nothing.

**Transactions** (`Command`). What is done between the start of a transaction and its end is kept
or undone as a whole. Transactions may be nested; a database keeps the tables to go back to on a
stack.
-/

namespace LeaseLock.Sql

/-- A value for an open place. -/
inductive Value where
  | text (s : String)
  /-- A time in milliseconds. -/
  | time (t : Int)
deriving DecidableEq, Repr

/-- A row of the lock table. -/
structure Row where
  name : String
  owner : String
  expiredAt : Int
  createdAt : Int
  updatedAt : Int
deriving DecidableEq, Repr

namespace Row

/-- The value in a column. -/
def get (r : Row) : Column → Value
  | .name => .text r.name
  | .owner => .text r.owner
  | .expiredAt => .time r.expiredAt
  | .createdAt => .time r.createdAt
  | .updatedAt => .time r.updatedAt

/-- The row with a value put into a column, if the column takes such a value. -/
def set (r : Row) : Column → Value → Option Row
  | .name, .text s => some { r with name := s }
  | .owner, .text s => some { r with owner := s }
  | .expiredAt, .time t => some { r with expiredAt := t }
  | .createdAt, .time t => some { r with createdAt := t }
  | .updatedAt, .time t => some { r with updatedAt := t }
  | _, _ => none

/-- The row with the given values in its columns, each column being given one of its kind. -/
def ofValues (values : List (Column × Value)) : Option Row :=
  match values.lookup .name, values.lookup .owner, values.lookup .expiredAt,
      values.lookup .createdAt, values.lookup .updatedAt with
  | some (.text n), some (.text o), some (.time e), some (.time c), some (.time u) =>
    some ⟨n, o, e, c, u⟩
  | _, _, _, _, _ => none

/-- The row meets a condition whose open place has the given value. -/
def meets (r : Row) (c : Condition) (v : Value) : Bool :=
  match c.comparison, r.get c.column, v with
  | .equal, w, v => w == v
  | .below, .time t, .time u => t < u
  | .below, .text s, .text t => s < t
  | .below, _, _ => false

/-- The row meets all the conditions, with their values in the same order. -/
def meetsAll (r : Row) (conditions : List Condition) (values : List Value) : Bool :=
  (conditions.zip values).all fun (c, v) => r.meets c v

/-- The row with the given values put into its columns. -/
def setAll (r : Row) (values : List (Column × Value)) : Option Row :=
  values.foldlM (fun r (c, v) => r.set c v) r

end Row

/-- Why a database does not do what it is told. -/
inductive Fault where
  /-- A row of that name is there already. -/
  | duplicate
  /-- Any other reason. -/
  | refused (reason : String)
deriving DecidableEq, Repr

/-- What a statement yields. -/
inductive Yield where
  | changed (count : Nat)
  /-- The columns asked for, row by row. -/
  | rows (values : List (List Value))
deriving DecidableEq, Repr

/-- What a database is told to do. -/
inductive Command where
  /-- Start a transaction, possibly within another one. -/
  | start
  /-- Keep what the innermost transaction did, and end it. -/
  | commit
  /-- Undo what the innermost transaction did, and end it. -/
  | rollback
  /-- Undo and end all transactions. -/
  | abandon
  /-- Carry a statement out, with values for its open places. -/
  | execute (s : Statement) (values : List Value)
deriving DecidableEq, Repr

/-- What a database says to a command. -/
abbrev Response := Except Fault Yield

/-- A database with the lock table. -/
structure Database where
  /-- The rows of the table, if there is a table. -/
  table : Option (List Row) := none
  /-- The database locks rows that are read in order to be changed; one that does not refuses
  to be asked for it. -/
  locksRows : Bool := false
  /-- The tables to go back to, latest first. -/
  saved : List (Option (List Row)) := []
  /-- The connections have been closed. -/
  closed : Bool := false
deriving DecidableEq, Repr

namespace Database

/-- The row of a name. -/
def row? (rows : List Row) (name : String) : Option Row := rows.find? fun r => r.name = name

/-- Adds a row unless one of its name is there. -/
def insert (rows : List Row) (columns : List Column) (values : List Value) :
    Except Fault (List Row × Yield) :=
  match Row.ofValues (columns.zip values) with
  | none => .error (.refused "wrong values")
  | some r =>
    if (row? rows r.name).isSome then .error .duplicate
    else .ok (rows ++ [r], .changed 1)

/-- Sets columns of the rows that meet the conditions. -/
def update (rows : List Row) (columns : List Column) (conditions : List Condition)
    (values : List Value) : Except Fault (List Row × Yield) :=
  let hit (r : Row) : Bool := r.meetsAll conditions (values.drop columns.length)
  let write (r : Row) : Option Row := if hit r then r.setAll (columns.zip values) else some r
  match rows.mapM write with
  | some rows' => .ok (rows', .changed (rows.countP hit))
  | none => .error (.refused "wrong values")

/-- Carries a statement out on the rows of the table. -/
def execute (locksRows : Bool) (rows : List Row) (values : List Value) :
    Statement → Except Fault (List Row × Yield)
  | .createTable => .ok (rows, .changed 0)
  | .insert columns => insert rows columns values
  | .select columns conditions lock =>
    if lock && !locksRows then .error (.refused "row locks are not supported")
    else
      let found := rows.filter (·.meetsAll conditions values)
      .ok (rows, .rows (found.map fun r => columns.map r.get))
  | .update columns conditions => update rows columns conditions values
  | .delete conditions =>
    let hit (r : Row) : Bool := r.meetsAll conditions values
    .ok (rows.filter (!hit ·), .changed (rows.countP hit))

/-- Goes back to a saved table. -/
def back (db : Database) : List (Option (List Row)) → Database
  | [] => db
  | table :: saved => { db with table, saved }

/-- Carries a command out. -/
def answer (db : Database) (c : Command) : Database × Response :=
  if db.closed then (db, .error (.refused "the connections are closed"))
  else
    let done : Response := .ok (.changed 0)
    match c with
    | .start => ({ db with saved := db.table :: db.saved }, done)
    | .commit => ({ db with saved := db.saved.tail }, done)
    | .rollback => (db.back db.saved, done)
    | .abandon => (db.back db.saved.getLast?.toList, done)
    | .execute .createTable _ => ({ db with table := some (db.table.getD []) }, done)
    | .execute s values => match db.table with
      | none => (db, .error (.refused "no such table"))
      | some rows => match execute db.locksRows rows values s with
        | .ok (rows, yield) => ({ db with table := some rows }, .ok yield)
        | .error fault => (db, .error fault)

instance : Server Database Command Response where
  answer db c := (db.answer c).map id some

end Database

end LeaseLock.Sql
