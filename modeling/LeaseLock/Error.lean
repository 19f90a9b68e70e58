import LeaseLock.Duration
import LeaseLock.Text.Quoted

/-!
# What can go wrong with a lock

**Causes** (`LockError`). One constructor per cause; a renewal or a release that failed carries
the error behind it. Why a record was lost (`Loss`) and what is wrong with the options
(`Misconfiguration`) are types of their own.

**Texts** (`LockError.message`). The wording of every error is given here and nowhere else.

**Classes.** `LockError.isContention` singles out the one outcome that a waiting party waits
through; `LockError.isTransient` the failures that may go away by themselves.
-/

namespace LeaseLock

/-- Why a record no longer counts as ours. -/
inductive Loss where
  | takenBy (owner : String)
  | expired
  | key (k owner : String)
  | row (name owner : String)
  | document (name : String)
  | session (id name : String)
  | lease (id : Int) (name : String)
  /-- A reason reported in words. -/
  | reported (text : String)
deriving DecidableEq, Repr

/-- The loss in words. -/
def Loss.text : Loss → String
  | .takenBy owner => "record now owned by " ++ owner
  | .expired => "record expired"
  | .key k owner => "key " ++ k ++ " no longer belongs to " ++ owner
  | .row name owner => "row " ++ name ++ " no longer belongs to " ++ owner
  | .document name => "document " ++ name ++ " no longer belongs to this acquisition"
  | .session id name => "session " ++ id ++ " for " ++ name ++ " no longer exists"
  | .lease id name => "lease " ++ toString id ++ " for " ++ name ++ " has expired"
  | .reported text => text

/-- What is wrong with a configuration. -/
inductive Misconfiguration where
  | emptyName
  | emptyOwner
  | zeroLease
  | longLease (lease limit : Duration)
  /-- Renewal would never happen, or not before the lease has run out. -/
  | renewal (every lease : Duration)
  | naps
  /-- The end of the lease lies beyond the clock's range. -/
  | leaseOutOfRange (lease : Duration)
  | noHostName (report : String)
  /-- The table's name is not a plain identifier. -/
  | tableName (table : String)
  | database (kind : String)
  | noConnection
  | noAddress
  /-- Neither a client nor a server was named. -/
  | noServer
  | serverAddress (report : String)
  | reported (text : String)
deriving DecidableEq, Repr

/-- The fault in words. -/
def Misconfiguration.text : Misconfiguration → String
  | .emptyName => "lock name is empty"
  | .emptyOwner => "owner id is empty"
  | .zeroLease => "lease timeout is zero"
  | .longLease lease limit =>
    "lease timeout " ++ lease.text ++ " exceeds the maximum " ++ limit.text
  | .renewal every lease =>
    "renew interval " ++ every.text ++ " must be non-zero and shorter than the lease "
      ++ lease.text
  | .naps => "minimum busy wait exceeds maximum"
  | .leaseOutOfRange lease => "lease " ++ lease.text ++ " is out of range"
  | .noHostName report => "cannot determine host name: " ++ report
  | .tableName table => "invalid table name: " ++ Text.quoted table
  | .database kind => "unsupported database backend: " ++ kind
  | .noConnection => "connection not specified"
  | .noAddress => "Consul address not specified"
  | .noServer => "no Redis client or URL provided"
  | .serverAddress report => "invalid Redis URL: " ++ report
  | .reported text => text

/-- Why an operation on a lock failed. -/
inductive LockError where
  /-- Someone else holds a live record; the owner is given if it could be read. -/
  | contended (name : String) (owner : Option String)
  /-- The service could not be reached, or did not answer in its own terms. -/
  | unavailable (cause : String)
  /-- A renewal in the background failed. -/
  | unrenewed (inner : LockError)
  /-- The service did not confirm a release. -/
  | unconfirmed (inner : LockError)
  /-- The record is gone or belongs to someone else. -/
  | lost (loss : Loss)
  | notHeld
  | released
  /-- A call or a wait exceeded its bound. -/
  | timedOut (after : Duration)
  | misconfigured (fault : Misconfiguration)
  /-- The service gave an answer that makes no sense. -/
  | garbled (report : String)
deriving DecidableEq, Repr

namespace LockError

/-- The end of the contention message: the current owner, if one is known. -/
def byOwner : Option String → String
  | some owner => " by " ++ owner
  | none => ""

/-- The error in words. -/
def message : LockError → String
  | contended name owner =>
    "lock " ++ Text.quoted name ++ " is already held" ++ byOwner owner
  | unavailable cause => "backend unavailable: " ++ cause
  | unrenewed inner => "lock renewal failed: " ++ inner.message
  | unconfirmed inner => "lock release failed: " ++ inner.message
  | lost loss => "lock was lost: " ++ loss.text
  | notHeld => "lock is not held"
  | released => "locker has already been released"
  | timedOut after => "lock operation timed out after " ++ after.text
  | misconfigured fault => "invalid lock options: " ++ fault.text
  | garbled report => "backend error: " ++ report

/-- The error only says that someone else holds the lock. -/
def isContention : LockError → Bool
  | contended _ _ => true
  | _ => false

/-- The operation may succeed when tried again. -/
def isTransient : LockError → Bool
  | unavailable _ | timedOut _ => true
  | unrenewed inner | unconfirmed inner => inner.isTransient
  | _ => false

/-- The owner that stands in the way, if the error tells. -/
def rival? : LockError → Option String
  | contended _ owner => owner
  | _ => none

/-- The messages of the errors behind this one, outermost first. -/
def sources : LockError → List String
  | unavailable cause => [cause]
  | garbled report => [report]
  | unrenewed inner | unconfirmed inner => inner.message :: inner.sources
  | _ => []

end LockError

end LeaseLock
