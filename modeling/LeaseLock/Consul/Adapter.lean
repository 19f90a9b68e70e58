import LeaseLock.Consul.Client
import LeaseLock.Remote

/-!
# Locks as Consul keys

**Taking the key** (`acquire`). A fresh session is created, and the owner is written to the key for
that session. An attempt that does not get the key destroys its session. While the session is of no
use yet, it is owed its destruction: whoever breaks the attempt off sends it.

**Keeping it** (`refresh`). The session is renewed; one that no longer exists has lost the key.

**Leaving it** (`release`). The key is deleted if our session still holds it and it has not changed
since it was read. Then the session is destroyed.

**The token** is the session of the current acquisition.
-/

namespace LeaseLock.Consul

/-- The shortest time to live of a session in seconds. -/
def minLifetime : Nat := 10

/-- The longest time to live of a session in seconds. -/
def maxLifetime : Nat := 86400

/-- The time to live of a session for a lease, within what an agent accepts. -/
def lifetime (o : Options) : Nat := min (max minLifetime o.wholeSecs) maxLifetime

/-- Who holds the key, as far as can be told: a key that no session holds has no owner. -/
def ownerOf (key : String) : Dialogue (Option String) := do
  match ← getKey key with
  | .ok (some entry) => return if entry.session.isSome then entry.owner else none
  | _ => return none

/-- Takes the key with a fresh session. What comes back besides the result is the session to
keep. -/
def acquire (key : String) (o : Options) (token : Option String) :
    Dialogue (Option String × Except LockError Attempt) := do
  match ← openSession o.name (lifetime o) with
  | .error e => return (token, .error e)
  | .ok session => Talk.owing [.closeSession session] do
    match ← acquireKey key session o.owner with
    | .ok true => return (some session, .ok .granted)
    | .ok false =>
      let owner ← ownerOf key
      discard (closeSession session)
      return (token, .ok (.occupied owner))
    | .error e =>
      discard (closeSession session)
      return (token, .error e)

/-- Renews the session. -/
def refresh (o : Options) (token : Option String) :
    Dialogue (Option String × Except LockError Unit) := do
  match token with
  | none => return (none, .error .notHeld)
  | some session =>
    match ← keepSession session with
    | .error e => return (token, .error e)
    | .ok true => return (token, .ok ())
    | .ok false => return (none, .error (.lost (.session session o.name)))

/-- Deletes the key if the session holds it. -/
def deleteHeld (key session : String) : Dialogue (Except LockError Unit) := do
  match ← getKey key with
  | .error e => return .error e
  | .ok none => return .ok ()
  | .ok (some entry) =>
    if entry.belongsTo session then
      return (← deleteKey key entry.modifyIndex).map fun _ => ()
    return .ok ()

/-- Deletes the key and destroys the session, if there is one. -/
def release (key : String) (token : Option String) :
    Dialogue (Option String × Except LockError Unit) := do
  match token with
  | none => return (none, .ok ())
  | some session =>
    match ← deleteHeld key session with
    | .error e => return (token, .error e)
    | .ok () =>
      match ← closeSession session with
      | .error e => return (token, .error e)
      | .ok () => return (none, .ok ())

/-- The configuration of locks as keys. -/
structure Setup where
  baseUrl : Option String := none
  /-- What gives us access, if anything is needed. -/
  token : Option String := none
  /-- What stands before the name of a lock in its key. -/
  keyPrefix : String := ""
deriving DecidableEq, Repr

/-- Where an agent keeps its locks. -/
structure Keyspace where
  client : Client
  /-- What stands before the name of a lock in its key. -/
  keyPrefix : String
deriving DecidableEq, Repr

/-- The keys of the agent; whether anybody is there shows at the first request. -/
def Setup.keyspace (s : Setup) : Except LockError Keyspace :=
  match s.baseUrl with
  | none | some "" => .error (.misconfigured .noAddress)
  | some url => .ok ⟨⟨Client.trimmed url, s.token⟩, s.keyPrefix⟩

/-- The key of a lock. -/
def Keyspace.key (ks : Keyspace) (name : String) : String := ks.keyPrefix ++ name

/-- The operations on keys. -/
def Keyspace.adapter (ks : Keyspace) : Adapter Question Http.Reply String := fun e op =>
  let key := ks.key e.own.name
  match op with
  | .acquire => do
    let (token, result) ← acquire key e.options e.token
    return (token, .acquire result)
  | .refresh => do
    let (token, result) ← refresh e.options e.token
    return (token, .refresh result)
  | .release => do
    let (token, result) ← release key e.token
    return (token, .release result)

end LeaseLock.Consul
