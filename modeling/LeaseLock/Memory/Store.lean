import LeaseLock.Service

/-!
# The store in memory

**Records** (`Memory.Record`). A record names its owner and the instant at which it ends. A record
that has ended counts as absent, but stays until it is overwritten or deleted by its owner.

**Operations.** A free name, an ended record and a record of the same owner can all be taken
(`Store.acquire`). Only the live record of its own owner can be refreshed (`Store.refresh`), and
only the owner's own record is deleted (`Store.release`).

**Partitions.** All calls of an owner that is cut off from the store fail.
-/

namespace LeaseLock.Memory

/-- A stored record. -/
structure Record where
  owner : String
  expires : Instant
deriving DecidableEq, Repr

/-- The record has not ended yet. -/
def Record.isLive (r : Record) (now : Instant) : Bool := now < r.expires

/-- The records by name, and the owners that cannot reach them. -/
structure Store where
  /-- The records, each name at most once. -/
  records : List (String × Record) := []
  cutOff : List String := []
deriving Repr

namespace Store

/-- The stored record of a name, ended or not. -/
def record? (s : Store) (name : String) : Option Record := s.records.lookup name

/-- The owner of the live record of a name. -/
def liveOwner? (s : Store) (now : Instant) (name : String) : Option String :=
  ((s.record? name).filter (·.isLive now)).map (·.owner)

/-- Deletes the record of a name. -/
def erase (s : Store) (name : String) : Store :=
  { s with records := s.records.filter fun p => p.1 ≠ name }

/-- Writes the record of a name. -/
def insert (s : Store) (name : String) (r : Record) : Store :=
  { s with records := (name, r) :: (s.erase name).records }

/-- Cuts an owner off. -/
def isolate (s : Store) (owner : String) : Store := { s with cutOff := owner :: s.cutOff }

/-- Lets an owner reach the store again. -/
def rejoin (s : Store) (owner : String) : Store :=
  { s with cutOff := s.cutOff.filter fun o => o ≠ owner }

/-- Fails for an owner that is cut off. -/
def reach (s : Store) (owner : String) : Except LockError Unit :=
  if owner ∈ s.cutOff then .error (.unavailable ("memory store unreachable for " ++ owner))
  else .ok ()

/-- The first instant that the clock cannot show. -/
def clockRange : Instant := (maxInt64 + 1) * Duration.perSecond

/-- The end of a lease that starts now. -/
def leaseEnd (now : Instant) (o : Options) : Except LockError Instant :=
  let ends := o.lease.after now
  if clockRange ≤ ends then .error (.misconfigured (.leaseOutOfRange o.lease)) else .ok ends

/-- Takes the name, unless the live record of another owner is in the way. -/
def acquire (s : Store) (now : Instant) (o : Options) :
    Store × Except LockError Attempt :=
  match s.reach o.owner, leaseEnd now o with
  | .error e, _ => (s, .error e)
  | .ok (), .error e => (s, .error e)
  | .ok (), .ok ends =>
    let take := (s.insert o.name ⟨o.owner, ends⟩, .ok .granted)
    match s.record? o.name with
    | some r =>
      if r.isLive now ∧ r.owner ≠ o.owner then (s, .ok (.occupied (some r.owner))) else take
    | none => take

/-- Moves the end of the owner's live record. -/
def refresh (s : Store) (now : Instant) (o : Options) : Store × Except LockError Unit :=
  match s.reach o.owner, leaseEnd now o with
  | .error e, _ => (s, .error e)
  | .ok (), .error e => (s, .error e)
  | .ok (), .ok ends =>
    match s.record? o.name with
    | some r =>
      if ¬r.isLive now then (s, .error (.lost .expired))
      else if r.owner = o.owner then (s.insert o.name ⟨r.owner, ends⟩, .ok ())
      else (s, .error (.lost (.takenBy r.owner)))
    | none => (s, .error (.lost .expired))

/-- Deletes the owner's record, live or not. -/
def release (s : Store) (o : Options) : Store × Except LockError Unit :=
  match s.reach o.owner with
  | .error e => (s, .error e)
  | .ok () =>
    match s.record? o.name with
    | some r => if r.owner = o.owner then (s.erase o.name, .ok ()) else (s, .ok ())
    | none => (s, .ok ())

/-- The answer to one call, and the store after it. -/
def answer (s : Store) (now : Instant) (o : Options) : Op → Store × Answer
  | .acquire => (s.acquire now o).map id .acquire
  | .refresh => (s.refresh now o).map id .refresh
  | .release => (s.release o).map id .release

instance : Service Store where
  begin s _ o op now := (s.answer now o op).map id .answered

end Store

end LeaseLock.Memory
