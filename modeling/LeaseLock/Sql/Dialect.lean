import LeaseLock.Error
import LeaseLock.Text.Occurs

/-!
# Dialects of SQL

**The dialects** (`Dialect`). The three kinds of database that can hold the lock table. They
differ in how values are held open in a statement, in the types of a column, and in whether a row
is locked while it is read.

**Detection** (`Dialect.ofKind`). The dialect follows from the name by which a database goes,
whatever the case of its letters.
-/

namespace LeaseLock.Sql

/-- A kind of database. -/
inductive Dialect where
  /-- Numbers its placeholders, and locks rows. -/
  | postgres
  /-- Locks rows. -/
  | mySql
  /-- Locks the whole database instead of rows. -/
  | sqlite
deriving DecidableEq, Repr

namespace Dialect

/-- The dialect of the databases that go by a name. -/
def ofKind (kind : String) : Except LockError Dialect :=
  let named (word : String) : Bool := Text.occursIn word.toList (kind.toList.map Char.toLower)
  if named "postgres" then .ok .postgres
  else if named "mysql" || named "mariadb" then .ok .mySql
  else if named "sqlite" then .ok .sqlite
  else .error (.misconfigured (.database kind))

/-- The placeholder of the `n`-th value of a statement, counted from one. -/
def placeholder (n : Nat) : Dialect → String
  | postgres => "$" ++ toString n
  | mySql | sqlite => "?"

/-- The column that numbers the rows. -/
def idColumn : Dialect → String
  | postgres => "id BIGSERIAL PRIMARY KEY"
  | mySql => "id BIGINT AUTO_INCREMENT PRIMARY KEY"
  | sqlite => "id INTEGER PRIMARY KEY AUTOINCREMENT"

/-- The type of short texts. -/
def textType : Dialect → String
  | postgres | mySql => "VARCHAR(255)"
  | sqlite => "TEXT"

/-- The dialect locks a row that is read in order to be changed. -/
def locksRows : Dialect → Bool
  | postgres | mySql => true
  | sqlite => false

end Dialect

end LeaseLock.Sql
