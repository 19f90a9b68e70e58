import LeaseLock.Redis.Adapter
import LeaseLock.Url.Locator

/-!
# Setting up locks as Redis keys

**The configuration** (`Setup`). A server is given by a client that is connected to it already, or
by its address; the client wins over the address.

**Addresses** (`isAddress`). A locator with a host, which may have credentials and a port. Its path
may give the number of a database.
-/

namespace LeaseLock.Redis

/-- The configuration of locks as keys. -/
structure Setup where
  /-- A connected client is given. -/
  client : Bool := false
  /-- The address of the server, if one is given. -/
  address : Option String := none
  /-- What stands before the name of a lock in its key. -/
  keyPrefix : String := ""
deriving DecidableEq, Repr

/-- The names by which the protocol goes. -/
def schemes : List String := ["redis", "rediss", "valkey", "valkeys"]

/-- The credentials are texts. -/
def areCredentials (a : Locator.Authority) : Bool :=
  [a.user, a.password].all fun part => (Url.decoded? part.toList).isSome

/-- The path names a database by number, or none. -/
def isDatabase (path : String) : Bool :=
  let number := path.toList.drop 1
  number.isEmpty || (Text.Decimal.value? number).any (· < 256)

/-- The text is the address of a server. -/
def isAddress (address : String) : Bool :=
  (Locator.parse? address).any fun l =>
    schemes.contains l.scheme && isDatabase l.path
      && l.authority.any fun a => a.host ≠ "" && areCredentials a

/-- The keys of the server. Nothing is connected here: an address alone finds nobody. -/
def Setup.keyspace (s : Setup) : Except LockError Keyspace :=
  match s.client, s.address with
  | true, _ => .ok ⟨s.keyPrefix⟩
  | false, some address =>
    if isAddress address then .error (.unavailable ("not connected to " ++ address))
    else .error (.misconfigured (.serverAddress "malformed address"))
  | false, none => .error (.misconfigured .noServer)

end LeaseLock.Redis
