import LeaseLock.Text.Occurs
import LeaseLock.Url.Percent

/-!
# Messages to etcd

**Requests** (`Request`). A lease is granted, revoked or kept alive. A transaction makes a key that
does not exist yet and binds it to a lease, or else reads the key.

**Replies** (`Reply`). Each kind of request has its own kind of reply; any of them may fail, and a
stream of replies may end. A status in place of a reply tells of either (`Reply.ofStatus`).
-/

namespace LeaseLock.Etcd

/-- What is asked of the server. -/
inductive Request where
  /-- Grant a lease for some seconds. -/
  | grant (secs : Nat)
  /-- Revoke a lease, which deletes the keys bound to it. -/
  | revoke (lease : Int)
  /-- Count a lease's time to live from now. -/
  | keepAlive (lease : Int)
  /-- Make the key, bound to the lease, unless it exists; read it if it does. -/
  | create (key owner : String) (lease : Int)
deriving DecidableEq, Repr

/-- What one step of a transaction yields. -/
inductive Effect where
  /-- A key was written. -/
  | written
  /-- The values found, as bytes. -/
  | found (values : List ByteArray)

/-- What the server replies. -/
inductive Reply where
  /-- The lease, and its time to live in seconds. -/
  | lease (id ttl : Int)
  | revoked
  /-- Whether the key was made, and what the steps of the transaction yielded. -/
  | outcome (created : Bool) (effects : List Effect)
  | failure (report : String)
  /-- There will be no further replies. -/
  | closed

/-- The reply that a status tells of. Its message travels percent-encoded; one that is no text has
lost its meaning. A status of zero, where a reply should be, is no failure but the end of the
replies. -/
def Reply.ofStatus (code : Int) (message : String) : Reply :=
  if code = 0 then .closed
  else .failure ((Url.decoded? message.toList).getD "the message of the status cannot be read")

/-- A failure whose report says that the lease is gone already. -/
def saysLeaseGone (report : String) : Bool := Text.occurs "lease not found" report

/-- The owner that a key holds: of the first value that each step found, the first that is text. -/
def ownerAmong (effects : List Effect) : Option String :=
  effects.findSome? fun e => match e with
    | .found (value :: _) => String.fromUTF8? value
    | _ => none

end LeaseLock.Etcd
