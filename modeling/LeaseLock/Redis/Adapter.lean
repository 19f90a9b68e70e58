import LeaseLock.Redis.Command
import LeaseLock.Remote

/-!
# Locks as Redis keys

**Taking the key** (`acquire`). The key is set if it is absent. If it is there it is read: the key
of another owner is in the way, and a key of our own is given a fresh time to live. A key that ends
in between makes a second round.

**Keeping and leaving it** (`refresh`, `release`). The scripts touch a key of our own only.

**Keys** (`Keyspace.key`). A lock's key is its name behind a common prefix.
-/

namespace LeaseLock.Redis

/-- Gives a key of our own a fresh time to live; says whether there was one. -/
def extend (key : String) (o : Options) : Talk Command Reply (Except LockError Bool) := do
  let reply ← Talk.question (.eval (.extend o.wholeSecs) key o.owner)
  return reply.asNumber.map (· == 1)

/-- Takes the key in at most the given number of rounds. -/
def acquireWithin (key : String) (o : Options) :
    Nat → Talk Command Reply (Except LockError Attempt)
  | 0 => return .ok (.occupied none)
  | rounds + 1 => do
    match (← Talk.question (.setAbsent key o.owner o.wholeSecs)).optionalText with
    | .error e => return .error e
    | .ok (some _) => return .ok .granted
    | .ok none =>
      match (← Talk.question (.get key)).optionalText with
      | .error e => return .error e
      | .ok none => acquireWithin key o rounds
      | .ok (some owner) =>
        if owner ≠ o.owner then return .ok (.occupied (some owner))
        match ← extend key o with
        | .error e => return .error e
        | .ok true => return .ok .granted
        | .ok false => acquireWithin key o rounds

/-- Takes the key unless it holds another owner. -/
def acquire (key : String) (o : Options) : Talk Command Reply (Except LockError Attempt) :=
  acquireWithin key o 2

/-- Gives our key a fresh time to live. -/
def refresh (key : String) (o : Options) : Talk Command Reply (Except LockError Unit) := do
  match ← extend key o with
  | .error e => return .error e
  | .ok true => return .ok ()
  | .ok false => return .error (.lost (.key key o.owner))

/-- Deletes our key, if it is there. -/
def release (key : String) (o : Options) : Talk Command Reply (Except LockError Unit) := do
  let reply ← Talk.question (.eval .remove key o.owner)
  return reply.asNumber.map fun _ => ()

/-- Where a server keeps its locks. -/
structure Keyspace where
  /-- What stands before the name of a lock in its key. -/
  keyPrefix : String := ""
deriving DecidableEq, Repr

/-- The key of a lock. -/
def Keyspace.key (ks : Keyspace) (name : String) : String := ks.keyPrefix ++ name

/-- The operations on keys. -/
def Keyspace.adapter (ks : Keyspace) : Adapter Command Reply Empty := fun e op =>
  let key := ks.key e.own.name
  match op with
  | .acquire => do return (none, .acquire (← acquire key e.options))
  | .refresh => do return (none, .refresh (← refresh key e.options))
  | .release => do return (none, .release (← release key e.options))

end LeaseLock.Redis
