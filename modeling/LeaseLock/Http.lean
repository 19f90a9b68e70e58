import LeaseLock.Error
import LeaseLock.Url.Address

/-!
# Requests over HTTP

**Requests** (`Http.Request`) and **replies** (`Http.Reply`). A request that gets no response has
failed; a response with a status from 400 to 599 reports an error.

**Header values** (`Http.headerValue?`). A value must not hold controls, the tab apart, and is read
without the blanks around it.
-/

namespace LeaseLock.Http

/-- What is to be done with the target. -/
inductive Method where
  | get
  | put
  | delete
deriving DecidableEq, Repr

def Method.text : Method → String
  | get => "GET"
  | put => "PUT"
  | delete => "DELETE"

/-- A request. -/
structure Request where
  method : Method
  url : Url
  /-- The headers that matter. -/
  headers : List (String × String) := []
  body : String := ""
deriving DecidableEq, Repr

/-- The value of a header, if a header can have it. -/
def headerValue? (s : String) : Option String :=
  let blank (c : Char) : Bool := c == ' ' || c == '\t'
  if s.toList.all fun c => c == '\t' || 32 ≤ c.toNat && c.toNat ≠ 127 then
    some (String.ofList ((s.toList.dropWhile blank).reverse.dropWhile blank).reverse)
  else none

/-- What comes back. -/
inductive Reply where
  | response (status : Nat) (body : String)
  | failure (report : String)
deriving DecidableEq, Repr

namespace Reply

/-- The target was not found. -/
def isNotFound : Reply → Bool
  | response status _ => status == 404
  | failure _ => false

/-- The content of a response that reports no error. Some statuses come without content. -/
def content : Reply → Except LockError String
  | response status body =>
    if 400 ≤ status ∧ status < 600 then .error (.unavailable ("status " ++ toString status))
    else .ok (if status = 204 ∨ status = 304 then "" else body)
  | failure report => .error (.unavailable report)

end Reply

end LeaseLock.Http
