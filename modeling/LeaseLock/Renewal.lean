import LeaseLock.Duration
import LeaseLock.Error

/-!
# Renewal

**The loop** (`Ticker`). A held lock is refreshed at regular instants, counted from the instant
it was taken. A tick that could not be taken in time runs late, and the ones it overran are
skipped: the next tick is the first later instant of the grid (`Ticker.nextDue`).

**Health** (`Health`). What the last tick left behind: renewal is healthy, failing, or the
lock is lost. A lock counts as lost when the service says so, or when no tick has succeeded for a
whole lease.

**One tick** (`Ticker.settle`). What the outcome of a refresh means for the health and for the
loop itself.
-/

namespace LeaseLock

/-- Why a lock counts as lost. -/
inductive LossCause where
  /-- The service said so. -/
  | told (loss : Loss)
  /-- Renewal failed for a whole lease, last with this error. -/
  | lapsed (error : LockError)
deriving DecidableEq, Repr

/-- The cause in words. -/
def LossCause.reason : LossCause → String
  | told loss => loss.text
  | lapsed error => "lease expired while renewal was failing: " ++ error.message

/-- The health of a locker's renewal. -/
inductive Health where
  /-- Nothing is being renewed. -/
  | idle
  /-- The last tick succeeded, or the lock has just been taken. -/
  | healthy
  /-- The last tick failed; the record was last renewed at the given instant. -/
  | failing (error : LockError) (renewed : Instant)
  /-- The lock is gone. -/
  | lost (cause : LossCause)
deriving DecidableEq, Repr

/-- What the renewal loop is doing. -/
inductive Ticker.Stage where
  | resting
  /-- It stands in line for the guard. -/
  | waiting
  /-- It has asked the service to refresh the record. -/
  | calling (since : Instant)
deriving DecidableEq, Repr

/-- A running renewal loop. -/
structure Ticker where
  due : Instant
  /-- When the record was last renewed by the loop, or taken. -/
  renewed : Instant
  stage : Ticker.Stage := .resting
deriving DecidableEq, Repr

namespace Ticker

/-- How late a tick may be taken and still count as on time. -/
def tolerance : Duration := .ofMillis 5

/-- When the tick after the one due at `due` and taken at `now` is due: one interval on if it was
taken in time, and otherwise at the next instant of the grid that lies after `now`. -/
def nextDue (every : Duration) (due now : Instant) : Instant :=
  if now ≤ due + tolerance.nanos then due + every.nanos
  else now + every.nanos - (now - due) % every.nanos

/-- The loop of a lock taken at `now`. -/
def start (every : Duration) (now : Instant) : Ticker := ⟨every.after now, now, .resting⟩

/-- What a refresh that came out as `result` at `now` leaves behind: the health to publish, if
any, and the loop, unless it ends. -/
def settle (t : Ticker) (lease : Duration) (now : Instant) (result : Except LockError Unit) :
    Option Health × Option Ticker :=
  match result with
  | .ok () => (some .healthy, some { t with renewed := now, stage := .resting })
  | .error .notHeld => (none, none)
  | .error (.lost loss) => (some (.lost (.told loss)), none)
  | .error e =>
    if lease.nanos ≤ now - t.renewed then (some (.lost (.lapsed e)), none)
    else (some (.failing (.unrenewed e) t.renewed), some { t with stage := .resting })

end Ticker

end LeaseLock
