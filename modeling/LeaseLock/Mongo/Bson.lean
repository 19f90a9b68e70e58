/-!
# Documents of MongoDB

**Values** (`Bson`). A document is a list of fields in order, each a name and a value; values are
texts, numbers, times, lists and documents again. A text that begins with a dollar sign stands for
itself in data and for a field or a variable in an expression.
-/

namespace LeaseLock.Mongo

/-- A value in a document. -/
inductive Bson where
  | null
  | bool (b : Bool)
  | text (s : String)
  /-- A number of 32 bits. -/
  | int32 (n : Int)
  /-- A number of 64 bits. -/
  | int64 (n : Int)
  /-- A time in milliseconds since the epoch. -/
  | date (millis : Int)
  | list (values : List Bson)
  /-- Fields in order. -/
  | document (fields : List (String × Bson))
deriving Repr, Inhabited

namespace Bson

/-- A document with a single field. -/
def single (name : String) (value : Bson) : Bson := document [(name, value)]

/-- The value of a field, if there is such a field. -/
def field? (b : Bson) (name : String) : Option Bson :=
  match b with
  | document fields => fields.lookup name
  | _ => none

/-- The text of a field. -/
def textField? (b : Bson) (name : String) : Option String :=
  match b.field? name with
  | some (text s) => some s
  | _ => none

/-- The time of a field. -/
def dateField? (b : Bson) (name : String) : Option Int :=
  match b.field? name with
  | some (date millis) => some millis
  | _ => none

end Bson

end LeaseLock.Mongo
