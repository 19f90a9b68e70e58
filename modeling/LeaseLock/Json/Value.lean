import LeaseLock.Json.Token

/-!
# Values of JSON

**Values** (`Json.Value`). Strings and numbers are kept as they are spelled, so that a value that
nobody asks for may hold anything that is well formed.

**Reading** (`Json.parse?`). The words of a text are taken one by one, with a stack of the arrays
and objects that are still open. A text holds exactly one value.
-/

namespace LeaseLock.Json

/-- A value as it is spelled. -/
inductive Value where
  | null
  | bool (b : Bool)
  | number (spelling : List Char)
  | text (pieces : List Piece)
  | array (items : List Value)
  /-- Names and values in order; a name may come back. -/
  | object (members : List (List Piece × Value))
deriving Repr, Inhabited

/-- An array or object that is still open while one of its values is read. -/
inductive Frame where
  /-- An array, with the items before this one, latest first. -/
  | item (before : List Value)
  /-- An object, with the members before this one, latest first, and the name of this one. -/
  | member (before : List (List Piece × Value)) (name : List Piece)

/-- How far the reading has come. -/
inductive Stage where
  /-- A value has to follow. -/
  | value (outer : List Frame)
  /-- The first item of an array, or its end, has to follow. -/
  | firstItem (outer : List Frame)
  /-- The first name of an object, or its end, has to follow. -/
  | firstName (outer : List Frame)
  /-- A further name has to follow. -/
  | name (before : List (List Piece × Value)) (outer : List Frame)
  /-- The colon after a name has to follow. -/
  | colon (before : List (List Piece × Value)) (name : List Piece) (outer : List Frame)
  /-- The next item of an array, or its end, has to follow. -/
  | afterItem (before : List Value) (outer : List Frame)
  /-- The next member of an object, or its end, has to follow. -/
  | afterMember (before : List (List Piece × Value)) (outer : List Frame)
  /-- Nothing may follow. -/
  | done (v : Value)

namespace Stage

/-- A value is complete. -/
def complete : List Frame → Value → Stage
  | [], v => done v
  | .item before :: outer, v => afterItem (v :: before) outer
  | .member before n :: outer, v => afterMember ((n, v) :: before) outer

/-- A word begins a value. -/
def begin (outer : List Frame) : Token → Option Stage
  | .null => some (complete outer .null)
  | .bool b => some (complete outer (.bool b))
  | .number spelling => some (complete outer (.number spelling))
  | .text pieces => some (complete outer (.text pieces))
  | .arrayOpen => some (firstItem outer)
  | .objectOpen => some (firstName outer)
  | _ => none

/-- Takes a word. -/
def step : Stage → Token → Option Stage
  | value outer, t => begin outer t
  | firstItem outer, .arrayClose => some (complete outer (.array []))
  | firstItem outer, t => begin (.item [] :: outer) t
  | firstName outer, .objectClose => some (complete outer (.object []))
  | firstName outer, .text n => some (colon [] n outer)
  | name before outer, .text n => some (colon before n outer)
  | colon before n outer, .colon => some (value (.member before n :: outer))
  | afterItem before outer, .comma => some (value (.item before :: outer))
  | afterItem before outer, .arrayClose => some (complete outer (.array before.reverse))
  | afterMember before outer, .comma => some (name before outer)
  | afterMember before outer, .objectClose => some (complete outer (.object before.reverse))
  | _, _ => none

/-- Takes words one by one. -/
def run (s : Stage) : List Token → Option Stage
  | [] => some s
  | t :: ts => (s.step t).bind fun s => s.run ts

end Stage

/-- The value that the words of a text make up. -/
def ofTokens? (ts : List Token) : Option Value :=
  match Stage.run (.value []) ts with
  | some (.done v) => some v
  | _ => none

/-- The value that a text holds. -/
def parse? (s : String) : Option Value := (scan? s.toList).bind ofTokens?

namespace Value

/-- The value of a string. -/
def text? : Value → Option String
  | text pieces => decode? pieces
  | _ => none

def bool? : Value → Option Bool
  | bool b => some b
  | _ => none

def items? : Value → Option (List Value)
  | array items => some items
  | _ => none

/-- The members of an object, all names of which have a value. -/
def members? : Value → Option (List (String × Value))
  | object members => members.mapM fun (name, v) => (decode? name).map (·, v)
  | _ => none

end Value

/-- The members of a name, in order. -/
def membersOf (members : List (String × Value)) (name : String) : List Value :=
  (members.filter fun m => m.1 = name).map (·.2)

end LeaseLock.Json
