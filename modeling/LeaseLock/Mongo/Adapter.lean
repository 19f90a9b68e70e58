import LeaseLock.Mongo.Command
import LeaseLock.Remote

/-!
# Locks as MongoDB documents

**Taking the document** (`acquire`). One command takes it with a fresh token, or leaves it as it
is, and returns it. The document is ours if it came back with our token. Two attempts to make the
same document may collide; the one that fails tries once more.

**Keeping and leaving it** (`refresh`, `release`). Both name the token, so they touch the document
of our own acquisition only, whoever owns it.

**The token** is a text that no other attempt has used.
-/

namespace LeaseLock.Mongo

/-- A conversation with the server. -/
abbrev Dialogue := Talk Command Reply

/-- A reply that is not what the command asks for. -/
def unexpected : LockError := .unavailable "unexpected reply"

/-- Reads the reply to a command that takes a document. -/
def Reply.record : Reply → Except LockError (Option Record)
  | found none => .ok none
  | found (some document) => match Record.ofBson? document with
    | some r => .ok (some r)
    | none => .error (.unavailable "malformed document")
  | failure _ report => .error (.unavailable report)
  | _ => .error unexpected

/-- Reads the reply to a command that counts documents. -/
def Reply.counted : Reply → Except LockError Nat
  | count n => .ok n
  | failure _ report => .error (.unavailable report)
  | _ => .error unexpected

/-- The reply says that a document of that name has just been made. -/
def Reply.isCollision : Reply → Bool
  | failure code _ => code == collisionCode
  | _ => false

/-- Takes the document with a token; a collision is met by trying once more. -/
def take (collection : String) (o : Options) (token : String) :
    Dialogue (Except LockError (Option Record)) := do
  let reply ← Talk.question (.take collection o token)
  if reply.isCollision then
    return (← Talk.question (.take collection o token)).record
  return reply.record

/-- Takes the document with a fresh token. -/
def acquire (collection : String) (o : Options) (token : Option String) (fresh : String) :
    Dialogue (Option String × Except LockError Attempt) := do
  match ← take collection o fresh with
  | .error e => return (token, .error e)
  | .ok none => return (token, .error (.garbled "upsert returned no document"))
  | .ok (some r) =>
    if r.token = fresh then return (some fresh, .ok .granted)
    return (token, .ok (.occupied (some r.owner)))

/-- Moves the end of our document. -/
def refresh (collection : String) (o : Options) (token : Option String) :
    Dialogue (Option String × Except LockError Unit) := do
  match token with
  | none => return (none, .error .notHeld)
  | some t =>
    match (← Talk.question (.extend collection o t)).counted with
    | .error e => return (token, .error e)
    | .ok 0 => return (token, .error (.lost (.document o.name)))
    | .ok _ => return (token, .ok ())

/-- Deletes our document, if there is one. -/
def release (collection : String) (o : Options) (token : Option String) :
    Dialogue (Option String × Except LockError Unit) := do
  match token with
  | none => return (none, .ok ())
  | some t =>
    match (← Talk.question (.delete collection o t)).counted with
    | .error e => return (token, .error e)
    | .ok _ => return (none, .ok ())

/-- A collection that is ready to hold locks. -/
structure Collection where
  name : String := "locks"
  /-- The token of an attempt, from the number of attempts before it. -/
  mint : Nat → String

/-- The operations on documents. -/
def Collection.adapter (c : Collection) : Adapter Command Reply String := fun e op =>
  match op with
  | .acquire => do
    let (token, result) ← acquire c.name e.options e.token (c.mint e.attempts)
    return (token, .acquire result)
  | .refresh => do
    let (token, result) ← refresh c.name e.options e.token
    return (token, .refresh result)
  | .release => do
    let (token, result) ← release c.name e.options e.token
    return (token, .release result)

end LeaseLock.Mongo
