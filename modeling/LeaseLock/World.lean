import LeaseLock.Locker.Step
import LeaseLock.Service

/-!
# Lockers around a service

**The world** (`World`). A clock, a service, the lockers that use it, and the calls whose answers
are still to come.

**Acts** (`World.Act`). One thing that happens: a locker is made, an event befalls a locker, an
answer lands, a call goes past a locker's guard or is taken back, time passes. `World.step` says
what becomes of the world, and reports what came back to those who called.

**Polls.** A call that the service answers on the spot is answered in the step that starts it, so
nothing comes between.

**What comes next** (`World.agenda`). The acts that the world waits for by itself, with the
instants from which they are due. `World.next?` picks the earliest; time moves in leaps of a
given grain.
-/

namespace LeaseLock

/-- A call whose answer has not come yet. -/
structure Flight where
  site : Site
  op : Op
  /-- When which answer lands, unless it never does. -/
  arrival : Option (Instant × Answer)

/-- A service, the lockers around it, and the time. -/
structure World (σ : Type) where
  now : Instant := 0
  /-- The service with its adapters. -/
  service : σ
  lockers : List Locker := []
  /-- The calls under way. -/
  flights : List Flight := []

namespace World

/-- What can happen in a world. -/
inductive Act where
  | create (o : Options)
  /-- An event befalls a locker; `draw` picks the length of a nap. -/
  | locker (i : Nat) (e : Locker.Event) (draw : Nat)
  /-- The answer of a flight lands. -/
  | land (k : Nat) (draw : Nat)
  /-- A call past the guard of a locker. -/
  | direct (i n : Nat) (o : Options) (op : Op)
  /-- A call past the guard is taken back. -/
  | recall (n : Nat)
  | elapse (til : Instant)

/-- What comes back to a caller. -/
inductive Report where
  | returned (n : Nat) (result : Except LockError Returned)
  | answered (n : Nat) (a : Answer)

/-- The returns among the effects of a step. -/
def reports (effects : List Locker.Effect) : List Report :=
  effects.filterMap fun e => match e with
    | .returned n result => some (.returned n result)
    | _ => none

variable {σ : Type}

/-- Puts a locker back. -/
def setLocker (w : World σ) (i : Nat) (l : Locker) : World σ :=
  { w with lockers := w.lockers.set i l }

/-- An answer reaches a party at a locker. -/
def deliver (w : World σ) (i : Nat) (p : Party) (a : Answer) (draw : Nat) :
    World σ × List Report :=
  match w.lockers[i]?.bind fun l => l.answer w.now p a draw with
  | some (l, effects) => (w.setLocker i l, reports effects)
  | none => (w, [])

variable [Service σ]

/-- A call goes to the service. Its answer is handed on at once or stays in flight. -/
def place (w : World σ) (site : Site) (o : Options) (op : Op) (draw : Nat) :
    World σ × List Report :=
  let (service, reception) := Service.begin w.service site o op w.now
  let w := { w with service }
  let inFlight (arrival : Option (Instant × Answer)) : World σ :=
    { w with flights := w.flights ++ [⟨site, op, arrival⟩] }
  match reception with
  | .answered a => match site.seat with
    | .party p => w.deliver site.home p a draw
    | .direct n => (w, [.answered n a])
  | .due landing a => (inFlight (some (landing, a)), [])
  | .silent => (inFlight none, [])

/-- A call under way is dropped. -/
def drop (w : World σ) (home : Nat) (seat : Seat) : World σ :=
  match w.flights.find? fun f => f.site.home = home ∧ f.site.seat = seat with
  | some f =>
    { w with
      service := Service.cut w.service f.site f.op w.now
      flights := w.flights.filter fun f => ¬(f.site.home = home ∧ f.site.seat = seat) }
  | none => w

/-- Carries one effect of a locker's step out. -/
def perform (w : World σ) (i : Nat) (own : Options) (draw : Nat) :
    Locker.Effect → World σ × List Report
  | .start p op => w.place ⟨i, .party p, own⟩ own op draw
  | .cut p => (w.drop i (.party p), [])
  | .returned n result => (w, [.returned n result])

/-- Carries the effects of a locker's step out, in their order. -/
def performAll (w : World σ) (i : Nat) (own : Options) (draw : Nat) :
    List Locker.Effect → World σ × List Report
  | [] => (w, [])
  | e :: es =>
    let (w, first) := w.perform i own draw e
    let (w, rest) := w.performAll i own draw es
    (w, first ++ rest)

/-- What an act makes of the world, if it can happen. -/
def step (w : World σ) : Act → Option (World σ × List Report)
  | .create o => match Locker.make o with
    | .ok l => some ({ w with lockers := w.lockers ++ [l] }, [])
    | .error _ => none
  | .locker i e draw => do
    let l ← w.lockers[i]?
    let (l', effects) ← l.step w.now e
    return (w.setLocker i l').performAll i l.options draw effects
  | .land k draw => do
    let f ← w.flights[k]?
    let (landing, a) ← f.arrival
    if w.now < landing then none
    else
      let w := { w with
        service := Service.landed w.service f.site f.op w.now
        flights := w.flights.eraseIdx k }
      match f.site.seat with
      | .party p => some (w.deliver f.site.home p a draw)
      | .direct n => some (w, [.answered n a])
  | .direct i n o op => do
    let l ← w.lockers[i]?
    return w.place ⟨i, .direct n, l.options⟩ o op 0
  | .recall n => do
    let f ← w.flights.find? fun f => f.site.seat = .direct n
    return (w.drop f.site.home f.site.seat, [])
  | .elapse til => if w.now ≤ til then some ({ w with now := til }, []) else none

/-! ## What comes next -/

/-- The answers that are still to land. -/
def landings (w : World σ) : List (Instant × Act) :=
  w.flights.zipIdx.filterMap fun (f, k) => f.arrival.map fun (landing, _) => (landing, .land k 0)

/-- All that the world waits for by itself. -/
def agenda (w : World σ) : List (Instant × Act) :=
  w.landings ++ w.lockers.zipIdx.flatMap fun (l, i) =>
    l.agenda.map fun (due, e) => (due, .locker i e 0)

/-- The first instant of the grain that is not before `t`. -/
def roundUp (grain t : Instant) : Instant := (t + (grain - 1)) / grain * grain

/-- The earliest of two timed acts; the first one if they are due together. -/
def earlier (a b : Instant × Act) : Instant × Act := if b.1 < a.1 then b else a

/-- The act that comes next by itself, and the instant at which it comes. -/
def next? (w : World σ) (grain : Instant) : Option (Instant × Act) :=
  match w.agenda.map fun (due, act) => (max w.now (roundUp grain due), act) with
  | [] => none
  | a :: as => some (as.foldl earlier a)

end World

end LeaseLock
