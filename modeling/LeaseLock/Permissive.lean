import LeaseLock.Service

/-!
# The service that grants everything

Stands in for a coordination service where a single party needs no exclusion.
-/

namespace LeaseLock

/-- A service without records. -/
structure Permissive where
deriving DecidableEq, Repr

/-- Every call succeeds. -/
def Permissive.answer : Op → Answer
  | .acquire => .acquire (.ok .granted)
  | .refresh => .refresh (.ok ())
  | .release => .release (.ok ())

instance : Service Permissive where
  begin s _ _ op _ := (s, .answered (Permissive.answer op))

end LeaseLock
