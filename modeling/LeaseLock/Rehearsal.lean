import LeaseLock.Permissive

/-!
# Rehearsed services

A service that follows a script, for trying lockers out. Each locker has its own part: for each
operation a list of cues, taken one per call. A cue says how long the answer takes and what it
is; a call without a cue succeeds on the spot.

The journal records when calls begin and end, and which were dropped before their answer.
-/

namespace LeaseLock

/-- What a rehearsed service does with one call. -/
structure Cue where
  /-- How long the answer takes. -/
  delay : Duration := ⟨0⟩
  /-- The answer, if it is not success. -/
  outcome : Except LockError Attempt := .ok .granted

namespace Cue

/-- The cue's answer to an operation. Other holders are met in attempts to acquire only. -/
def answer (c : Cue) : Op → Answer
  | .acquire => .acquire c.outcome
  | .refresh => .refresh (c.outcome.map fun _ => ())
  | .release => .release (c.outcome.map fun _ => ())

end Cue

/-- The cues of one locker. -/
structure Part where
  acquire : List Cue := []
  refresh : List Cue := []
  release : List Cue := []

/-- Takes the next cue for an operation. -/
def Part.take (part : Part) : Op → Cue × Part
  | .acquire => (part.acquire.headD {}, { part with acquire := part.acquire.tail })
  | .refresh => (part.refresh.headD {}, { part with refresh := part.refresh.tail })
  | .release => (part.release.headD {}, { part with release := part.release.tail })

/-- What the journal says of a call. -/
inductive Milestone where
  /-- The call began. -/
  | start
  /-- The answer reached the caller. -/
  | finish
  /-- The caller went away before the answer. -/
  | cancelled
deriving DecidableEq, Repr

/-- A line of the journal. -/
structure JournalEntry where
  home : Nat
  op : Op
  time : Instant
  what : Milestone
deriving DecidableEq, Repr

/-- A service that follows a script. -/
structure Rehearsal where
  /-- The parts of the lockers, by number. -/
  parts : List (Nat × Part) := []
  /-- The journal, oldest line first. -/
  journal : List JournalEntry := []

namespace Rehearsal

/-- Gives a locker its part. -/
def assign (r : Rehearsal) (home : Nat) (part : Part) : Rehearsal :=
  { r with parts := (home, part) :: r.parts.filter fun p => p.1 ≠ home }

/-- Adds a line to the journal. -/
def note (r : Rehearsal) (home : Nat) (op : Op) (time : Instant) (what : Milestone) : Rehearsal :=
  { r with journal := r.journal ++ [⟨home, op, time, what⟩] }

/-- Takes a call: the next cue of the locker's part is due. -/
def take (r : Rehearsal) (home : Nat) (op : Op) (now : Instant) : Rehearsal × Reception :=
  let (cue, part) := ((r.parts.lookup home).getD {}).take op
  let r := (r.assign home part).note home op now .start
  if cue.delay.isZero then (r.note home op now .finish, .answered (cue.answer op))
  else (r, .due (cue.delay.after now) (cue.answer op))

instance : Service Rehearsal where
  begin r site _ op now := r.take site.home op now
  landed r site op now := r.note site.home op now .finish
  cut r site op now := r.note site.home op now .cancelled

end Rehearsal

end LeaseLock
