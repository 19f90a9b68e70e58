import LeaseLock.Json.Value
import LeaseLock.Text.Base64
import LeaseLock.Text.Decimal

/-!
# Entries of the key-value store

**Entries** (`Entry`). A key has a value, which is written in base 64, the session that holds it,
and the index of its last change.

**Reading** (`Entry.parse?`). An entry is an object with at most one member for each of its fields,
in any order and among others that do not matter, or an array of the four fields. Key and index
have to be there; value and session may be null or missing. The index is a natural number below
2 ^ 64, spelled as its digits.
-/

namespace LeaseLock.Consul

/-- An entry of the store. -/
structure Entry where
  key : String
  /-- The value in base 64. -/
  value : Option String := none
  /-- The session that holds the key. -/
  session : Option String := none
  /-- The index of the last change. -/
  modifyIndex : Nat
deriving DecidableEq, Repr

namespace Entry

/-- The value read as an owner. -/
def owner (e : Entry) : Option String := e.value.bind Text.Base64.decodeText

/-- The session holds the key. -/
def belongsTo (e : Entry) (session : String) : Bool := e.session == some session

/-- A string or null. -/
def optionalText? : Json.Value → Option (Option String)
  | .null => some none
  | v => v.text?.map some

/-- A natural number of 64 bits, spelled as its digits. -/
def index? : Json.Value → Option Nat
  | .number spelling => (Text.Decimal.value? spelling).filter (· ≤ maxUInt64)
  | _ => none

/-- The entry that four values make up. -/
def ofFields? (key value session index : Json.Value) : Option Entry := do
  return {
    key := ← key.text?
    value := ← optionalText? value
    session := ← optionalText? session
    modifyIndex := ← index? index }

/-- The only member of a name. -/
def required? (members : List (String × Json.Value)) (name : String) : Option Json.Value :=
  match Json.membersOf members name with
  | [v] => some v
  | _ => none

/-- The only member of a name, or null if there is none. -/
def optional? (members : List (String × Json.Value)) (name : String) : Option Json.Value :=
  match Json.membersOf members name with
  | [] => some .null
  | [v] => some v
  | _ => none

/-- The entry that a value describes. -/
def ofJson? : Json.Value → Option Entry
  | .array [key, value, session, index] => ofFields? key value session index
  | v => do
    let members ← v.members?
    ofFields? (← required? members "Key") (← optional? members "Value")
      (← optional? members "Session") (← required? members "ModifyIndex")

/-- Reads one entry. -/
def parse? (s : String) : Option Entry := (Json.parse? s).bind ofJson?

/-- Reads a list of entries. -/
def parseAll? (s : String) : Option (List Entry) := do
  (← (← Json.parse? s).items?).mapM ofJson?

end Entry

/-- Reads the answer to the creation of a session: its id, by name or as the only item. -/
def sessionId? (s : String) : Option String := do
  match ← Json.parse? s with
  | .array [id] => id.text?
  | v => (← Entry.required? (← v.members?) "ID").text?

/-- Reads a truth value. -/
def flag? (s : String) : Option Bool := (Json.parse? s).bind Json.Value.bool?

end LeaseLock.Consul
