import LeaseLock.World

/-!
# Sessions

**The session** (`Session`). A world that somebody works with: handles on lockers, kept under
names, and calls on them, made one after another or in the background as named tasks.

**Time.** It stands still while something is left to do, and leaps to the next instant at which
something is due while somebody waits. What is due at the instant at which a wait ends has
happened when the wait is over.

**Sleep** (`Session.stretch`). The timers under the sessions on record end every sleep after thirty
years, and so do those of a session. That is theirs alone: the nap of a locker, and the delay of a
service, are as long as was asked for.

**Handles.** A locker is dropped when its handle is gone and the last call on it has ended.
-/

namespace LeaseLock

/-- How a call ended. -/
inductive Outcome where
  | returned (result : Except LockError Returned)
  /-- A call past the guard was answered. -/
  | answered (a : Answer)
  | cancelled

/-- A call that can be made on a locker. -/
inductive Request where
  | verb (v : Verb)
  /-- Past its guard, with the options given or the locker's own. -/
  | direct (op : Op) (o : Option Options)

/-- A call on a locker, and how and when it ended. -/
structure Job where
  home : Nat
  request : Request
  outcome : Option (Outcome × Instant) := none

/-- What a session knows of a locker besides its state. -/
structure Member where
  id : String
  /-- The locker was handed out under its name. -/
  stored : Bool
  /-- The handle still exists. -/
  handle : Bool := true

/-- A world in use. -/
structure Session (σ : Type) where
  world : World σ
  /-- The leaps in which time moves. -/
  grain : Instant
  /-- The longest that its timers let anybody sleep at a stretch. -/
  stretch : Duration := .ofSecs (30 * 365 * 86400)
  members : List Member := []
  /-- The calls made so far that somebody may still ask for, by number. -/
  jobs : List (Nat × Job) := []
  /-- The numbers of the calls that run as tasks. -/
  tasks : List (String × Nat) := []
  fresh : Nat := 0

namespace Session

variable {σ : Type}

/-- A session over a service, with nothing done yet. -/
def start (grain : Duration) (service : σ) : Session σ :=
  { world := { service }, grain := grain.nanos }

def now (s : Session σ) : Instant := s.world.now

/-- The locker kept under a name, by number. -/
def find? (s : Session σ) (id : String) : Option Nat :=
  s.members.findIdx? fun m => m.id = id ∧ m.stored ∧ m.handle

/-- The health of renewal by name; a name that was given out again shows its latest locker. -/
def healths (s : Session σ) : List (String × Health) :=
  (s.members.zip s.world.lockers).foldl (fun shown (m, l) =>
    if m.stored then (m.id, l.health) :: shown.filter (fun p => p.1 ≠ m.id) else shown) []

/-- A call on the locker is still under way. -/
def inUse (s : Session σ) (home : Nat) : Bool :=
  s.jobs.any fun (_, j) => j.home = home ∧ j.outcome.isNone

/-- The call with the given number has ended. -/
def isDone (s : Session σ) (n : Nat) : Bool :=
  (s.jobs.lookup n).all (·.outcome.isSome)

/-- Notes how a call ended. -/
def conclude (s : Session σ) (n : Nat) (outcome : Outcome) : Session σ :=
  { s with jobs := s.jobs.map fun (k, j) =>
      if k = n ∧ j.outcome.isNone then (k, { j with outcome := some (outcome, s.now) })
      else (k, j) }

/-- Takes note of what came back. -/
def hear (s : Session σ) : World.Report → Session σ
  | .returned n result => s.conclude n (.returned result)
  | .answered n a => s.conclude n (.answered a)

/-- Changes what is known of a locker. -/
def setMember (s : Session σ) (home : Nat) (f : Member → Member) : Session σ :=
  { s with members := s.members.modify home f }

/-- Ends the nap of a call by an instant, if it naps. -/
def rouse (til : Instant) (c : Caller) : Caller :=
  match c.stage with
  | .napping wake => { c with stage := .napping (min wake til) }
  | _ => c

/-- Ends all that sleeps in a world by an instant: naps, and answers that take their time. -/
def rouseAll (til : Instant) (w : World σ) : World σ :=
  { w with
    lockers := w.lockers.map fun l =>
      { l with callers := l.callers.map fun (n, c) => (n, rouse til c) }
    flights := w.flights.map fun f =>
      { f with arrival := f.arrival.map fun (landing, a) => (min landing til, a) } }

variable [Service σ]

/-- Lets an act happen in the world. -/
def apply (s : Session σ) (act : World.Act) : Session σ :=
  match s.world.step act with
  | some (world, reports) =>
    let world := rouseAll (s.stretch.after world.now) world
    reports.foldl hear { s with world }
  | none => s

/-- Drops the lockers that nobody can use any more. -/
def sweep (s : Session σ) : Session σ :=
  s.members.zipIdx.foldl (fun s (m, i) =>
    if ¬m.handle ∧ ¬s.inUse i then s.apply (.locker i (.drop true) 0) else s) s

/-- Lets an act happen, with all that hangs on it at once. -/
def act (s : Session σ) (act : World.Act) : Session σ := (s.apply act).sweep

/-- Lets things happen in the order in which they are due: all that is due now, and what is due
later until `stop` says so or the limit is reached. The number bounds the acts. -/
def run (stop : Session σ → Bool) (limit : Option Instant) : Nat → Session σ → Session σ
  | 0, s => s
  | n + 1, s =>
    let halt := match limit with
      | some til => s.act (.elapse til)
      | none => s
    match s.world.next? s.grain with
    | some (due, a) =>
      if due ≤ s.now then run stop limit n (s.act a)
      else if stop s then s
      else if limit.any (· < due) then halt
      else run stop limit n ((s.act (.elapse due)).act a)
    | none => if stop s then s else halt

/-- How many acts may pass within one step of a session. -/
def patience : Nat := 1000000

/-- Lets all happen that is due now. -/
def settle (s : Session σ) : Session σ := s.run (fun _ => true) none patience

/-- Waits for a call to end. -/
def await (s : Session σ) (n : Nat) : Session σ := s.run (·.isDone n) none patience

/-- Starts a call on a locker. -/
def begin (s : Session σ) (home : Nat) (request : Request) : Session σ × Nat :=
  let n := s.fresh
  let job : Job := { home, request }
  let s := { s with fresh := n + 1, jobs := s.jobs ++ [(n, job)] }
  match request with
  | .verb v => (s.act (.locker home (.call n v) 0), n)
  | .direct op o =>
    let own := (s.world.lockers[home]?.map (·.options)).getD { owner := "" }
    (s.act (.direct home n (o.getD own) op), n)

/-- Makes a call and waits for its outcome. -/
def perform (s : Session σ) (home : Nat) (request : Request) : Session σ × Outcome :=
  let (s, n) := s.begin home request
  let s := s.await n
  let outcome := ((s.jobs.lookup n).bind (·.outcome)).map (·.1)
  ({ s with jobs := s.jobs.filter fun p => p.1 ≠ n }, outcome.getD .cancelled)

/-- Lets go of the handle kept under a name. -/
def release (s : Session σ) (id : String) : Session σ :=
  match s.find? id with
  | some home => (s.setMember home fun m => { m with handle := false }).sweep
  | none => s

/-- Makes a locker, which is not handed out yet. -/
def make (s : Session σ) (id : String) (o : Options) : Session σ :=
  { s.act (.create o) with members := s.members ++ [⟨id, false, true⟩] }

/-- Hands a locker out under its name; the one kept there before is let go. -/
def hand (s : Session σ) (home : Nat) (id : String) : Session σ :=
  (s.release id).setMember home fun m => { m with stored := true }

/-! ## Steps -/

/-- Makes a locker and keeps it under a name. -/
def create (s : Session σ) (id : String) (o : Options) : Except LockError (Session σ) :=
  o.check.map fun () => ((s.make id o).hand s.members.length id).settle

/-- Makes a locker and keeps it under a name if its first attempt takes the lock. -/
def createHeld (s : Session σ) (id : String) (o : Options) : Session σ × Except LockError Unit :=
  match o.check with
  | .error e => (s, .error e)
  | .ok () =>
    let home := s.members.length
    let (s, outcome) := (s.make id o).perform home (.verb .lock)
    match outcome with
    | .returned (.ok _) => ((s.hand home id).settle, .ok ())
    | .returned (.error e) =>
      ((s.setMember home fun m => { m with handle := false }).sweep.settle, .error e)
    | _ => (s, .error .released)

/-- Makes a call on the locker kept under a name, if there is one, and waits for its outcome. -/
def call (s : Session σ) (id : String) (request : Request) : Session σ × Option Outcome :=
  match s.find? id with
  | some home =>
    let (s, outcome) := s.perform home request
    (s, some outcome)
  | none => (s, none)

/-- Starts a call in the background; there may be no such locker. -/
def spawn (s : Session σ) (task id : String) (request : Request) : Option (Session σ) :=
  (s.find? id).map fun home =>
    let (s, n) := s.begin home request
    { s with tasks := (task, n) :: s.tasks.filter fun p => p.1 ≠ task }.settle

/-- Waits for a task and forgets it, if there is one. -/
def join (s : Session σ) (task : String) : Session σ × Option (Outcome × Instant) :=
  match s.tasks.lookup task with
  | some n =>
    let s := s.await n
    ({ s with tasks := s.tasks.filter fun p => p.1 ≠ task },
      (s.jobs.lookup n).bind (·.outcome))
  | none => (s, none)

/-- Whether a task has ended, if there is one. -/
def finished (s : Session σ) (task : String) : Option Bool :=
  (s.tasks.lookup task).map s.isDone

/-- Cancels a task that has not ended. -/
def abort (s : Session σ) (task : String) : Session σ :=
  match s.tasks.lookup task with
  | some n => match s.jobs.lookup n with
    | some ⟨home, request, none⟩ =>
      let s := match request with
        | .verb _ => s.apply (.locker home (.cancel n) 0)
        | .direct _ _ => s.apply (.recall n)
      (s.conclude n .cancelled).sweep.settle
    | _ => s
  | none => s

/-- Lets time pass. -/
def sleep (s : Session σ) (d : Duration) : Session σ :=
  s.run (fun _ => false) (some (s.now + min d.nanos s.stretch.nanos)) patience

/-- Drops the handle kept under a name; says whether there was one. -/
def dropHandle (s : Session σ) (id : String) : Session σ × Bool :=
  ((s.release id).settle, (s.find? id).isSome)

/-- Drops the handle kept under a name where no errand can be sent out. A locker that is still in
use is dropped later, by its last user; that, and a missing locker, is reported as failure. -/
def dropOutside (s : Session σ) (id : String) : Session σ × Bool :=
  match s.find? id with
  | some home =>
    if s.inUse home then ((s.release id).settle, false)
    else
      let s := s.apply (.locker home (.drop false) 0)
      ((s.setMember home fun m => { m with handle := false }).settle, true)
  | none => (s, false)

/-- Changes the service from outside. -/
def onService (s : Session σ) (f : σ → σ) : Session σ :=
  { s with world := { s.world with service := f s.world.service } }.settle

end Session

end LeaseLock
