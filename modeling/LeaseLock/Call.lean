import LeaseLock.Error

/-!
# What a locker asks of a service

**Operations** (`Op`). A service is asked for three things: to acquire the record of a lock or
take over an expired one, to push the expiry of our own record, and to delete our own record.

**Answers** (`Answer`). Each operation has its own kind of answer. Contention is an outcome of an
acquisition, not an error.
-/

namespace LeaseLock

/-- The operations of a service. -/
inductive Op where
  /-- Create the record, or replace one that has expired. -/
  | acquire
  /-- Push the expiry of our own record. -/
  | refresh
  /-- Delete our own record. -/
  | release
deriving DecidableEq, Repr

/-- How one attempt to acquire came out. -/
inductive Attempt where
  /-- The record is ours. -/
  | granted
  /-- A live record belongs to another acquisition, whose owner may be known. -/
  | occupied (owner : Option String)
deriving DecidableEq, Repr

/-- The answer to one call. -/
inductive Answer where
  | acquire (result : Except LockError Attempt)
  | refresh (result : Except LockError Unit)
  | release (result : Except LockError Unit)

/-- The operation that the answer answers. -/
def Answer.op : Answer → Op
  | acquire _ => .acquire
  | refresh _ => .refresh
  | release _ => .release

/-- The answer that an operation failed. -/
def Answer.failed (error : LockError) : Op → Answer
  | .acquire => .acquire (.error error)
  | .refresh => .refresh (.error error)
  | .release => .release (.error error)

@[simp] theorem Answer.op_failed (error : LockError) (op : Op) :
    (Answer.failed error op).op = op := by
  cases op <;> rfl

end LeaseLock
