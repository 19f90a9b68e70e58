import LeaseLock.Mongo.Pipeline

/-!
# Commands to MongoDB

**Records** (`Record`). The document of a lock. It counts as read only if all its fields are there
and have their types; further fields do not matter.

**Commands** (`Command`). The document of a lock is taken, kept or deleted; the server runs each
command as one step. Keeping and deleting name the token of the acquisition.

**Replies** (`Reply`). Taking yields the document as it then stands, the others the number of
documents that they met.
-/

namespace LeaseLock.Mongo

/-- The document of a lock. -/
structure Record where
  /-- What the document goes by: the name of the lock. -/
  id : String
  name : String
  owner : String
  /-- The token of the acquisition that holds it. -/
  token : String
  /-- When the record ends. -/
  expiredAt : Int
  /-- When the record was made. -/
  createdAt : Int
  /-- When the record was last written. -/
  updatedAt : Int
deriving DecidableEq, Repr

/-- Reads the document of a lock. -/
def Record.ofBson? (b : Bson) : Option Record := do
  return {
    id := ← b.textField? "_id"
    name := ← b.textField? "name"
    owner := ← b.textField? "ownerID"
    token := ← b.textField? "lockId"
    expiredAt := ← b.dateField? "expiredAt"
    createdAt := ← b.dateField? "createdAt"
    updatedAt := ← b.dateField? "updatedAt" }

/-- What is asked of the server, on a collection. -/
inductive Command where
  /-- Take the document of the options' lock with a token, and return it as it then stands. -/
  | take (collection : String) (o : Options) (token : String)
  /-- Move the end of the document that carries the owner and the token. -/
  | extend (collection : String) (o : Options) (token : String)
  /-- Delete the document that carries the token. -/
  | delete (collection : String) (o : Options) (token : String)
deriving DecidableEq, Repr

namespace Command

/-- The token that the command names. -/
def token : Command → String
  | take _ _ token | extend _ _ token | delete _ _ token => token

/-- Which documents the command is about. -/
def filter : Command → Bson
  | take _ o _ => .single "_id" (.text o.name)
  | extend _ o token =>
    .document [("_id", .text o.name), ("ownerID", .text o.owner), ("lockId", .text token)]
  | delete _ o token => .document [("_id", .text o.name), ("lockId", .text token)]

/-- The command as it is sent. -/
def document (c : Command) : Bson :=
  match c with
  | take collection o token => .document [
      ("findAndModify", .text collection),
      ("query", c.filter),
      ("update", .list (takePipeline o token)),
      ("upsert", .bool true),
      ("new", .bool true)]
  | extend collection o _ => .document [
      ("update", .text collection),
      ("updates", .list [.document [("q", c.filter), ("u", .list (keepPipeline o))]]),
      ("ordered", .bool true)]
  | delete collection _ _ => .document [
      ("delete", .text collection),
      ("deletes", .list [.document [("q", c.filter), ("limit", .int32 1)]]),
      ("ordered", .bool true)]

end Command

/-- What the server replies. -/
inductive Reply where
  /-- The document as it stands, if there is one. -/
  | found (document : Option Bson)
  /-- The number of documents met. -/
  | count (n : Nat)
  /-- The command failed. -/
  | failure (code : Int) (report : String)
  /-- A write of the command failed. -/
  | writeFailure (code : Int)
deriving Repr

/-- The code of the failure that another document of that name has just been made. -/
def collisionCode : Int := 11000

end LeaseLock.Mongo
