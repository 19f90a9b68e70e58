import LeaseLock.Sql.Dialect

/-!
# Statements on the lock table

**Statements** (`Statement`). What is done to the lock table, with open places for the values. The
values of a statement are given in the order in which its open places stand in its text.

**The statements of the adapter.** One to make the table and five to work with it: `insertRow`,
`readRow`, `stealRow`, `refreshRow` and `deleteRow`.

**Text** (`Statement.text`). A statement in the words of a dialect.

**Table names** (`tableFault?`). The table's name goes into the text as it is, so it has to be a
plain identifier: letters, digits and underscores of ASCII, and no digit at the front.
-/

namespace LeaseLock.Sql

/-- A column of the lock table. -/
inductive Column where
  /-- The name of the lock; no two rows share it. -/
  | name
  | owner
  | expiredAt
  | createdAt
  | updatedAt
deriving DecidableEq, Repr

/-- The column's name in the table. -/
def Column.text : Column → String
  | name => "name"
  | owner => "owner_id"
  | expiredAt => "expired_at"
  | createdAt => "created_at"
  | updatedAt => "updated_at"

/-- How a column is compared with a value. -/
inductive Comparison where
  | equal
  | below
deriving DecidableEq, Repr

/-- The comparison's sign. -/
def Comparison.text : Comparison → String
  | equal => "="
  | below => "<"

/-- A column to be compared with the value of an open place. -/
structure Condition where
  column : Column
  comparison : Comparison
deriving DecidableEq, Repr

/-- A statement on the lock table. -/
inductive Statement where
  /-- Make the table unless it is there. -/
  | createTable
  /-- Add a row with a value for each of the columns. -/
  | insert (columns : List Column)
  /-- Read columns of the rows that meet the conditions, and lock these rows if told to. -/
  | select (columns : List Column) (conditions : List Condition) (lock : Bool)
  /-- Set columns of the rows that meet the conditions. -/
  | update (columns : List Column) (conditions : List Condition)
  /-- Take away the rows that meet the conditions. -/
  | delete (conditions : List Condition)
deriving DecidableEq, Repr

namespace Statement

/-- The columns of the table but for the row's number. -/
def columns : List Column := [.name, .owner, .expiredAt, .createdAt, .updatedAt]

/-- Adds the record of a lock. -/
def insertRow : Statement := .insert columns

/-- Reads the owner and the end of the record of a lock, which may be about to change hands. -/
def readRow (d : Dialect) : Statement :=
  .select [.owner, .expiredAt] [⟨.name, .equal⟩] d.locksRows

/-- Gives the record of a lock to a new owner if it has ended. -/
def stealRow : Statement :=
  .update [.owner, .expiredAt, .updatedAt] [⟨.name, .equal⟩, ⟨.expiredAt, .below⟩]

/-- Moves the end of an owner's record. -/
def refreshRow : Statement :=
  .update [.expiredAt, .updatedAt] [⟨.name, .equal⟩, ⟨.owner, .equal⟩]

/-- Takes an owner's record away. -/
def deleteRow : Statement := .delete [⟨.name, .equal⟩, ⟨.owner, .equal⟩]

/-- The pieces of a list, with a separator between them. -/
def separated (separator : String) (pieces : List String) : String :=
  separator.intercalate pieces

/-- The placeholders of `count` values, the first of which has the number `first`. -/
def placeholders (d : Dialect) (first count : Nat) : List String :=
  (List.range' first count).map d.placeholder

/-- Each column with its placeholder, the first of which has the given number. -/
def assignments (d : Dialect) (first : Nat) (columns : List Column) : String :=
  separated ", " (columns.zipWith (fun c p => c.text ++ " = " ++ p)
    (placeholders d first columns.length))

/-- The conditions with their placeholders, the first of which has the given number. -/
def conjunction (d : Dialect) (first : Nat) (conditions : List Condition) : String :=
  separated " AND " (conditions.zipWith
    (fun c p => c.column.text ++ " " ++ c.comparison.text ++ " " ++ p)
    (placeholders d first conditions.length))

/-- The definitions of the columns. -/
def definitions (d : Dialect) : List String :=
  [d.idColumn,
    "name " ++ d.textType ++ " NOT NULL UNIQUE",
    "owner_id " ++ d.textType ++ " NOT NULL",
    "expired_at BIGINT NOT NULL",
    "created_at BIGINT NOT NULL",
    "updated_at BIGINT NOT NULL"]

/-- The statement in the words of a dialect. -/
def text (d : Dialect) (table : String) : Statement → String
  | createTable =>
    "CREATE TABLE IF NOT EXISTS " ++ table ++ " (" ++ separated ", " (definitions d) ++ ")"
  | insert columns =>
    "INSERT INTO " ++ table ++ " (" ++ separated ", " (columns.map Column.text) ++ ") VALUES ("
      ++ separated ", " (placeholders d 1 columns.length) ++ ")"
  | select columns conditions lock =>
    "SELECT " ++ separated ", " (columns.map Column.text) ++ " FROM " ++ table ++ " WHERE "
      ++ conjunction d 1 conditions ++ (if lock then " FOR UPDATE" else "")
  | update columns conditions =>
    "UPDATE " ++ table ++ " SET " ++ assignments d 1 columns ++ " WHERE "
      ++ conjunction d (1 + columns.length) conditions
  | delete conditions =>
    "DELETE FROM " ++ table ++ " WHERE " ++ conjunction d 1 conditions

end Statement

/-- What is wrong with a table's name, if it is not a plain identifier. -/
def tableFault? (table : String) : Option Misconfiguration :=
  let word (c : Char) : Bool := c.isAlphanum || c == '_'
  match table.toList with
  | [] => some (.tableName table)
  | c :: cs => if !c.isDigit && (c :: cs).all word then none else some (.tableName table)

end LeaseLock.Sql
