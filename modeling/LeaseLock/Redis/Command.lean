import LeaseLock.Error
import LeaseLock.Text.Decimal

/-!
# Commands to Redis

**Commands** (`Command`). A key is set if it is absent, or read, or handed to a script that the
server runs as one step. The scripts look at the key first: they touch it only if it holds a given
owner.

**Replies** (`Reply`). Where a text is expected, a number counts as its digits and nil as no text.
Where a number is expected, its digits count as well, and nothing else does.
-/

namespace LeaseLock.Redis

/-- What the server runs as one step, on a key that holds a given owner. -/
inductive Script where
  /-- Count the key's time to live from now, in seconds. -/
  | extend (secs : Nat)
  | remove
deriving DecidableEq, Repr

/-- The script's text. -/
def Script.text : Script → String
  | extend _ =>
    "\n    if redis.call('get', KEYS[1]) == ARGV[1] then\n"
      ++ "        return redis.call('expire', KEYS[1], ARGV[2])\n    end\n    return 0\n"
  | remove =>
    "\n    if redis.call('get', KEYS[1]) == ARGV[1] then\n"
      ++ "        return redis.call('del', KEYS[1])\n    end\n    return 0\n"

/-- A command. -/
inductive Command where
  /-- Set an absent key to an owner for some seconds. -/
  | setAbsent (key owner : String) (secs : Nat)
  /-- Read a key. -/
  | get (key : String)
  /-- Run a script on a key that is expected to hold an owner. -/
  | eval (script : Script) (key owner : String)
deriving DecidableEq, Repr

/-- A word of a command. -/
inductive Word where
  | text (s : String)
  | number (n : Nat)
deriving DecidableEq, Repr

/-- The command's name. -/
def Command.verb : Command → String
  | setAbsent .. => "SET"
  | get _ => "GET"
  | eval .. => "EVAL"

/-- The words that follow the command's name. -/
def Command.words : Command → List Word
  | setAbsent key owner secs => [.text key, .text owner, .text "EX", .number secs, .text "NX"]
  | get key => [.text key]
  | eval (.extend secs) key owner =>
    [.text (Script.extend secs).text, .number 1, .text key, .text owner, .number secs]
  | eval .remove key owner => [.text Script.remove.text, .number 1, .text key, .text owner]

/-- What the server replies. -/
inductive Reply where
  | nil
  | text (s : String)
  | number (n : Int)
  | failure (report : String)
deriving DecidableEq, Repr

namespace Reply

/-- The reply as a text that may be absent. -/
def optionalText : Reply → Except LockError (Option String)
  | nil => .ok none
  | text s => .ok (some s)
  | number n => .ok (some (toString n))
  | failure report => .error (.unavailable report)

/-- The reply as a number. -/
def asNumber : Reply → Except LockError Int
  | nil => .error (.unavailable "nil where a number was expected")
  | text s => match Text.Decimal.signed? s with
    | some n => .ok n
    | none => .error (.unavailable "text where a number was expected")
  | number n => .ok n
  | failure report => .error (.unavailable report)

end Reply

end LeaseLock.Redis
