import LeaseLock.Mongo.Command

/-!
# How the server computes updates

**Expressions** (`eval`). An expression is read on a document and at an instant. A text with one
dollar sign at its front is the value of a field, one with two is a variable; a document with a
single field whose name begins so is an operation. A condition needs only the branch that it takes.

**Stages** (`setStage?`). All expressions of a stage are read on the document as it was.
-/

namespace LeaseLock.Mongo

/-! ## Values -/

/-- What an expression comes to. -/
inductive Value where
  /-- The operation is refused. -/
  | fails
  /-- There is no such field. -/
  | missing
  | value (b : Bson)

/-- What a text in an expression stands for. -/
inductive Reference where
  | itself
  | field (name : String)
  | now
  /-- Another variable, or a path into a field. -/
  | other
deriving DecidableEq

def reference (s : String) : Reference :=
  match s.toList with
  | '$' :: '$' :: rest => if rest = "NOW".toList then .now else .other
  | '$' :: rest => if '.' ∈ rest then .other else .field (String.ofList rest)
  | _ => .itself

namespace Bson

/-- The place of a kind of values among the kinds. -/
def rank : Bson → Nat
  | null => 1
  | int32 _ | int64 _ => 2
  | text _ => 3
  | document _ => 4
  | list _ => 5
  | bool _ => 6
  | date _ => 7

/-- How two values compare; of one kind, lists and documents are left out. -/
def order? : Bson → Bson → Option Ordering
  | null, null => some .eq
  | int32 a, int32 b | int32 a, int64 b | int64 a, int32 b | int64 a, int64 b => some (compare a b)
  | text a, text b => some (compare a b)
  | bool a, bool b => some (compare a.toNat b.toNat)
  | date a, date b => some (compare a b)
  | a, b => if a.rank = b.rank then none else some (compare a.rank b.rank)

/-- The value counts as true. -/
def truth : Bson → Bool
  | null => false
  | bool b => b
  | int32 n | int64 n => n != 0
  | _ => true

end Bson

/-- A number of milliseconds that a time can have. -/
def IsTime (millis : Int) : Prop := -(maxInt64 : Int) - 1 ≤ millis ∧ millis ≤ maxInt64

instance (millis : Int) : Decidable (IsTime millis) := inferInstanceAs (Decidable (_ ∧ _))

namespace Value

/-- The value of a field that may be missing. -/
def ofField : Option Bson → Value
  | some b => value b
  | none => missing

@[simp] theorem ofField_some (b : Bson) : ofField (some b) = value b := rfl

@[simp] theorem ofField_none : ofField none = missing := rfl

/-- A missing field comes before every value. -/
def order? : Value → Value → Option Ordering
  | missing, missing => some .eq
  | missing, value _ => some .lt
  | value _, missing => some .gt
  | value a, value b => a.order? b
  | _, _ => none

/-- What a comparison comes to. -/
def ofOrder (o : Option Ordering) (p : Ordering → Bool) : Value :=
  match o with
  | some o => value (.bool (p o))
  | none => fails

def truth? : Value → Option Bool
  | fails => none
  | missing => some false
  | value b => some b.truth

/-- One of the values is true; those behind it are not needed. -/
def any : List Value → Value
  | [] => value (.bool false)
  | v :: vs => match v.truth? with
    | some true => value (.bool true)
    | some false => any vs
    | none => fails

/-- The first value that is there, or the last one. -/
def coalesce : List Value → Value
  | [] => fails
  | [v] => v
  | v :: vs => match v with
    | missing | value .null => coalesce vs
    | v => v

/-- A time some milliseconds later, if 64 bits can hold it. -/
def laterBy : Value → Value → Value
  | value (.date d), value (.int32 n) | value (.date d), value (.int64 n) =>
    if IsTime (d + n) then value (.date (d + n)) else fails
  | missing, value _ | value .null, value _ => value .null
  | _, _ => fails

end Value

/-! ## Expressions -/

/-- The name is that of an operation. -/
def isOperator (s : String) : Bool := s.toList.head? == some '$'

/-- An operation, with its argument as it stands and with the values of the items or of the fields
in it. -/
def operate (name : String) (arg : Bson) (items : List Value) (fields : List (String × Value)) :
    Value :=
  match name, items with
  | "$literal", _ => .value arg
  | "$or", vs => .any vs
  | "$lte", [a, b] => .ofOrder (a.order? b) Ordering.isLE
  | "$eq", [a, b] => .ofOrder (a.order? b) Ordering.isEq
  | "$ifNull", vs => .coalesce vs
  | "$cond", [c, yes, no] => match c.truth? with
    | some true => yes
    | some false => no
    | none => .fails
  | "$dateAdd", _ => match fields with
    | [("startDate", start), ("unit", .value (.text "millisecond")), ("amount", n)] =>
      start.laterBy n
    | _ => .fails
  | _, _ => .fails

/-- What an expression is read on. -/
structure Input where
  document : Bson
  now : Int

mutual

/-- What an expression comes to. Lists and documents that are no operations are left out. -/
def eval (i : Input) : Bson → Value
  | .text s => match reference s with
    | .itself => .value (.text s)
    | .field name => .ofField (i.document.field? name)
    | .now => .value (.date i.now)
    | .other => .fails
  | .document [(name, arg)] =>
    if isOperator name then operate name arg (evalItems i arg) (evalFields i arg) else .fails
  | .document _ | .list _ => .fails
  | b => .value b

/-- The values of the items of a list. -/
def evalItems (i : Input) : Bson → List Value
  | .list bs => evalAll i bs
  | _ => []

/-- The values of the fields of a document. -/
def evalFields (i : Input) : Bson → List (String × Value)
  | .document fs => evalNamed i fs
  | _ => []

def evalAll (i : Input) : List Bson → List Value
  | [] => []
  | b :: bs => eval i b :: evalAll i bs

def evalNamed (i : Input) : List (String × Bson) → List (String × Value)
  | [] => []
  | f :: fs => evalField i f :: evalNamed i fs

def evalField (i : Input) : String × Bson → String × Value
  | (name, b) => (name, eval i b)

end

/-! ## Stages -/

/-- Puts a value in a field. -/
def setField (name : String) (b : Bson) : List (String × Bson) → List (String × Bson)
  | [] => [(name, b)]
  | f :: fs => if f.1 = name then (name, b) :: fs else f :: setField name b fs

/-- Puts what an expression has come to in a field of a document. -/
def Bson.store? (document : Bson) (name : String) (v : Value) : Option Bson :=
  match document, v with
  | .document fs, .value b => some (.document (setField name b fs))
  | .document fs, .missing => some (.document (fs.filter (·.1 ≠ name)))
  | _, _ => none

/-- What a stage that sets fields makes of a document. -/
def setStage? (now : Int) (document stage : Bson) : Option Bson :=
  match stage with
  | .document [("$set", fields)] =>
    (evalFields ⟨document, now⟩ fields).foldlM (fun b f => b.store? f.1 f.2) document
  | _ => none

/-- What a pipeline makes of a document. -/
def update? (now : Int) (document : Bson) (pipeline : List Bson) : Option Bson :=
  pipeline.foldlM (setStage? now) document

end LeaseLock.Mongo
