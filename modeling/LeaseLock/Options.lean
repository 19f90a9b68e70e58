import LeaseLock.Error

/-!
# Lock options

**Options** (`Options`). What one acquisition is about: the name, the owner, the lease and its
renewal, a bound on every call, and how long to wait between attempts.

**Whole units.** Services count leases in seconds or milliseconds (`Options.wholeSecs`,
`Options.wholeMillis`): the seconds are rounded up, so that a record never ends before its lease,
and both stop at the largest signed 64-bit integer.

**Validity** (`Options.check`). The first fault found, in a fixed order, or none.
-/

namespace LeaseLock

/-- The largest signed integer of 64 bits. -/
def maxInt64 : Nat := 0x7FFFFFFFFFFFFFFF

/-- The largest unsigned integer of 64 bits. -/
def maxUInt64 : Nat := 0xFFFFFFFFFFFFFFFF

/-- The longest lease accepted. -/
def maxLease : Duration := .ofSecs 86400

/-- The configuration of one acquisition. -/
structure Options where
  name : String := "gala-distributed-lock"
  /-- How long a record stays valid without renewal. -/
  lease : Duration := .ofSecs 10
  owner : String
  /-- The time between renewals, if it is not half the lease. -/
  renewal : Option Duration := none
  /-- The bound on every single call, if there is one. -/
  callTimeout : Option Duration := none
  minNap : Duration := .ofMillis 10
  maxNap : Duration := .ofMillis 500
deriving DecidableEq, Repr

namespace Options

/-- Options owned by this host, whose name may be unknown. -/
def ofHost : Except String String → Except LockError Options
  | .ok host => .ok { owner := host }
  | .error report => .error (.misconfigured (.noHostName report))

/-- The time between renewals: half the lease unless set. -/
def interval (o : Options) : Duration := o.renewal.getD o.lease.half

/-- The lease in whole seconds, rounded up and never below one. -/
def wholeSecs (o : Options) : Nat :=
  min (max 1 ((o.lease.nanos + (Duration.perSecond - 1)) / Duration.perSecond)) maxInt64

/-- The lease in whole milliseconds, rounded down. -/
def wholeMillis (o : Options) : Nat := min o.lease.millis maxInt64

/-- The first fault of the options, if they have one. -/
def fault? (o : Options) : Option Misconfiguration :=
  if o.name = "" then some .emptyName
  else if o.owner = "" then some .emptyOwner
  else if o.lease.isZero then some .zeroLease
  else if maxLease < o.lease then some (.longLease o.lease maxLease)
  else if o.interval.isZero ∨ o.lease ≤ o.interval then some (.renewal o.interval o.lease)
  else if o.maxNap < o.minNap then some .naps
  else none

/-- Accepts the options, or says what is wrong with them. -/
def check (o : Options) : Except LockError Unit :=
  match o.fault? with
  | some fault => .error (.misconfigured fault)
  | none => .ok ()

/-- The wait between two attempts: a whole number of milliseconds between the bounds, each cut to
whole milliseconds that fit in 64 bits, picked by `draw`. -/
def nap (o : Options) (draw : Nat) : Duration :=
  let low := min o.minNap.millis maxUInt64
  let high := min o.maxNap.millis maxUInt64
  .ofMillis (low + draw % (high - low + 1))

/-- A duration that may be absent, as `describe` shows it. -/
def describeOptional : Option Duration → String
  | some d => "Some(" ++ d.text ++ ")"
  | none => "None"

/-- The options on one line, field by field. -/
def describe (o : Options) : String :=
  "LockOptions \x7b name: " ++ Text.quoted o.name
    ++ ", lease_timeout: " ++ o.lease.text
    ++ ", owner_id: " ++ Text.quoted o.owner
    ++ ", renew_interval: " ++ describeOptional o.renewal
    ++ ", operation_timeout: " ++ describeOptional o.callTimeout
    ++ ", min_busy_wait: " ++ o.minNap.text
    ++ ", max_busy_wait: " ++ o.maxNap.text ++ " \x7d"

end Options

end LeaseLock
