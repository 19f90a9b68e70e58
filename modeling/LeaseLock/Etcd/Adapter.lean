import LeaseLock.Etcd.Endpoint
import LeaseLock.Etcd.Message
import LeaseLock.Remote

/-!
# Locks as etcd keys

**Taking the key** (`acquire`). A fresh lease is granted, and the key is made, bound to that lease,
unless it exists. An attempt that does not get the key revokes its lease. While the lease is of no
use yet, it is owed a revocation: whoever breaks the attempt off sends it.

**Keeping it** (`refresh`). The lease is kept alive by two messages on one stream. The first opens
the stream and has to find the lease alive; the answer to the second tells whether it still is.

**Leaving it** (`release`). The lease is revoked, and the key goes with it.

**The token** is the lease of the current acquisition.
-/

namespace LeaseLock.Etcd

/-- A conversation with the server. -/
abbrev Dialogue := Talk Request Reply

/-- A reply of a kind that the request does not have. -/
def unexpected : LockError := .unavailable "unexpected reply"

/-- Grants a lease for the length of the options' lease. -/
def grant (o : Options) : Dialogue (Except LockError Int) := do
  match ← Talk.question (.grant o.wholeSecs) with
  | .lease id _ => return .ok id
  | .failure report => return .error (.unavailable report)
  | _ => return .error unexpected

/-- Revokes a lease; one that is gone already counts as revoked. -/
def revoke (lease : Int) : Dialogue (Except LockError Unit) := do
  match ← Talk.question (.revoke lease) with
  | .revoked => return .ok ()
  | .failure report =>
    return if saysLeaseGone report then .ok () else .error (.unavailable report)
  | _ => return .error unexpected

/-- Makes the key unless it exists, and tells who holds it if it does. -/
def create (key : String) (o : Options) (lease : Int) :
    Dialogue (Except LockError Attempt) := do
  match ← Talk.question (.create key o.owner lease) with
  | .outcome true _ => return .ok .granted
  | .outcome false effects => return .ok (.occupied (ownerAmong effects))
  | .failure report => return .error (.unavailable report)
  | _ => return .error unexpected

/-- Takes the key with a fresh lease. What comes back besides the result is the lease to keep. -/
def acquire (key : String) (o : Options) (token : Option Int) :
    Dialogue (Option Int × Except LockError Attempt) := do
  match ← grant o with
  | .error e => return (token, .error e)
  | .ok lease => Talk.owing [.revoke lease] do
    match ← create key o lease with
    | .ok .granted => return (some lease, .ok .granted)
    | .ok (.occupied owner) =>
      match ← revoke lease with
      | .ok () => return (token, .ok (.occupied owner))
      | .error e =>
        Talk.notice (.revoke lease)
        return (token, .error e)
    | .error e =>
      discard (revoke lease)
      return (token, .error e)

/-- Opens a stream that keeps a lease alive; tells the lease to name on it. -/
def openKeepAlive (lease : Int) : Dialogue (Except LockError Int) := do
  match ← Talk.question (.keepAlive lease) with
  | .lease id ttl =>
    return if ttl ≤ 0 then .error (.unavailable "lease not alive") else .ok id
  | .failure report => return .error (.unavailable report)
  | _ => return .error unexpected

/-- Keeps the lease alive. -/
def refresh (o : Options) (token : Option Int) :
    Dialogue (Option Int × Except LockError Unit) := do
  match token with
  | none => return (none, .error .notHeld)
  | some lease =>
    match ← openKeepAlive lease with
    | .error e => return (token, .error e)
    | .ok id =>
      match ← Talk.question (.keepAlive id) with
      | .lease _ ttl =>
        return if ttl ≤ 0 then (none, .error (.lost (.lease lease o.name)))
          else (token, .ok ())
      | .closed =>
        return (token, .error (.garbled "keep-alive stream closed without a response"))
      | .failure report => return (token, .error (.unavailable report))
      | _ => return (token, .error unexpected)

/-- Revokes the lease, if there is one. -/
def release (token : Option Int) : Dialogue (Option Int × Except LockError Unit) := do
  match token with
  | none => return (none, .ok ())
  | some lease =>
    match ← revoke lease with
    | .ok () => return (none, .ok ())
    | .error e => return (token, .error e)

/-- Where a server keeps its locks. -/
structure Keyspace where
  /-- What stands before the name of a lock in its key. -/
  keyPrefix : String := ""
deriving DecidableEq, Repr

/-- The key of a lock. -/
def Keyspace.key (ks : Keyspace) (name : String) : String := ks.keyPrefix ++ name

/-- The operations on keys. -/
def Keyspace.adapter (ks : Keyspace) : Adapter Request Reply Int := fun e op =>
  match op with
  | .acquire => do
    let (token, result) ← acquire (ks.key e.own.name) e.options e.token
    return (token, .acquire result)
  | .refresh => do
    let (token, result) ← refresh e.options e.token
    return (token, .refresh result)
  | .release => do
    let (token, result) ← release e.token
    return (token, .release result)

/-- Prepares connections to servers; whether anybody is there shows at the first request. -/
def connect (endpoints : List String) : Except LockError Keyspace :=
  if endpoints ≠ [] ∧ endpoints.all isEndpoint then .ok {}
  else .error (.unavailable "no usable endpoint")

end LeaseLock.Etcd
