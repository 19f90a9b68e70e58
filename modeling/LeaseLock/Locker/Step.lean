import LeaseLock.Locker.Basic

/-!
# How a locker moves

**Events** (`Locker.Event`). Everything that can happen to a locker, one step at a time: a call
arrives, a party that waited gets its turn, the service answers, a call exceeds its bound, a
caller is cancelled or wakes up, a tick falls due, the last handle is dropped, the errand of a
dropped locker sets out. `Locker.step` says what becomes of the locker, and refuses an event that
cannot happen in its state.

**Effects** (`Locker.Effect`). What a step does to the outside: it starts a call to the service,
cuts one off before its answer, or returns from a call on the locker.

**One poll, one step.** A party that gets the guard goes on at once to what it wants: it returns,
or its call to the service starts. A tick publishes its outcome in the step in which its answer
comes, after it has passed the guard on.

**Cancelling.** A caller that is cancelled leaves the line or drops its call; what it had changed
by then stays changed. So an `unlock` that was cut off has released the locker, and a `lock` that
was cut off has changed nothing.
-/

namespace LeaseLock.Locker

/-- What can happen to a locker. -/
inductive Event where
  /-- A call with a fresh number arrives. -/
  | call (n : Nat) (verb : Verb)
  /-- The party at the head of the line goes on. -/
  | resume (p : Party)
  /-- The service answers the party's call; `draw` picks the length of a nap. -/
  | answer (p : Party) (a : Answer) (draw : Nat)
  /-- The party's call has reached its bound. -/
  | expire (p : Party)
  | cancel (n : Nat)
  | wake (n : Nat)
  | tick
  /-- The last handle is dropped, where errands can be sent out or where they cannot. -/
  | drop (errands : Bool)
  | close

/-- What a step does to the outside. -/
inductive Effect where
  /-- A call to the service starts. -/
  | start (p : Party) (op : Op)
  /-- The party's call to the service is dropped before its answer. -/
  | cut (p : Party)
  /-- A call on the locker returns. -/
  | returned (n : Nat) (result : Except LockError Returned)

/-! ## Getting the guard -/

/-- The caller's call returns, and the guard passes on. -/
def finish (l : Locker) (n : Nat) (result : Except LockError Returned) : Locker × List Effect :=
  (l.removeCaller n, [.returned n result])

/-- The caller, which has the guard, asks the service. -/
def ask (l : Locker) (now : Instant) (n : Nat) (op : Op) : Locker × List Effect :=
  (l.moveCaller n (.calling now), [.start (.caller n) op])

/-- A caller gets the guard. -/
def enterCaller (l : Locker) (now : Instant) (n : Nat) (verb : Verb) : Locker × List Effect :=
  match verb, l.phase with
  | .state, s => l.finish n (.ok (.state s))
  | .lock, .idle | .acquire _, .idle => l.ask now n .acquire
  | .lock, .held | .acquire _, .held => l.finish n (.ok .done)
  | .lock, .released | .acquire _, .released => l.finish n (.error .released)
  | .refresh, .held => l.ask now n .refresh
  | .refresh, _ => l.finish n (.error .notHeld)
  | .unlock, .held =>
    -- Renewal ends before the release goes out, so that no tick can follow it.
    { l.stopTicker with phase := .released, health := .idle }.ask now n .release
  | .unlock, _ => { l with phase := .released }.finish n (.ok .done)

/-- The renewal loop gets the guard. -/
def enterTicker (l : Locker) (now : Instant) (t : Ticker) : Locker × List Effect :=
  match l.phase with
  | .held => ({ l with ticker := some { t with stage := .calling now } }, [.start .ticker .refresh])
  | _ => (l.stopTicker, [])

/-- The record of a dropped locker is given back, without the guard: nobody else is left. -/
def sendRelease (l : Locker) (now : Instant) : Locker × List Effect :=
  ({ l.stopTicker with closer := some (.calling now) }, [.start .closer .release])

/-- The errand of a dropped locker gets the guard, releases the locker and passes the guard on. -/
def enterCloser (l : Locker) (now : Instant) : Locker × List Effect :=
  let gone := { l with phase := .released, guard := l.guard.leave .closer }
  match l.phase with
  | .held => gone.sendRelease now
  | _ => ({ gone with closer := none }, [])

/-- The party goes on if it is at the head of the line and has been waiting. -/
def proceed (l : Locker) (now : Instant) (p : Party) : Option (Locker × List Effect) :=
  if l.guard.holder ≠ some p then none
  else match p with
    | .caller n => match l.caller? n with
      | some ⟨verb, _, .waiting⟩ => some (l.enterCaller now n verb)
      | _ => none
    | .ticker => match l.ticker with
      | some t => if t.stage = .waiting then some (l.enterTicker now t) else none
      | none => none
    | .closer => if l.closer = some .waiting then some (l.enterCloser now) else none

/-- The party joins the line, and goes on at once if nobody is before it. -/
def queue (l : Locker) (now : Instant) (p : Party) : Locker × List Effect :=
  let l := { l with guard := l.guard.join p }
  (l.proceed now p).getD (l, [])

/-! ## Callers -/

/-- An attempt to acquire has failed. A lone attempt returns its error. One of several returns it
too, unless it only met another holder; then the caller naps, or gives up at its limit. -/
def retry (l : Locker) (now : Instant) (n : Nat) (c : Caller) (e : LockError) (draw : Nat) :
    Locker × List Effect :=
  match c.verb with
  | .acquire limit =>
    if e.isContention then
      let waited := now - c.began
      let nap := l.options.nap draw
      let asleep (nap : Duration) : Locker × List Effect :=
        ({ l.moveCaller n (.napping (nap.after now)) with
          guard := l.guard.leave (.caller n) }, [])
      match limit with
      | some limit =>
        if limit.nanos ≤ waited then l.finish n (.error (.timedOut limit))
        else asleep ⟨min nap.nanos (limit.nanos - waited)⟩
      | none => asleep nap
    else l.finish n (.error e)
  | _ => l.finish n (.error e)

/-- The service has answered a caller. -/
def answerCaller (l : Locker) (now : Instant) (n : Nat) (c : Caller) (a : Answer) (draw : Nat) :
    Option (Locker × List Effect) :=
  if c.verb.op ≠ some a.op then none
  else match a with
    | .acquire (.ok .granted) =>
      let taken := { l with
        phase := .held
        health := .healthy
        ticker := some (.start l.options.interval now) }
      some (taken.finish n (.ok .done))
    | .acquire (.ok (.occupied owner)) =>
      some (l.retry now n c (.contended l.options.name owner) draw)
    | .acquire (.error e) => some (l.retry now n c e draw)
    | .refresh result => some (l.finish n (result.map fun () => .done))
    | .release (.ok ()) => some (l.finish n (.ok .done))
    | .release (.error e) => some (l.finish n (.error (.unconfirmed e)))

/-! ## Renewal -/

/-- The service has answered a tick: the guard passes on, and the outcome is published. -/
def answerTicker (l : Locker) (now : Instant) (t : Ticker) (result : Except LockError Unit) :
    Locker :=
  let (health, ticker) := t.settle l.options.lease now result
  { l with health := health.getD l.health, ticker, guard := l.guard.leave .ticker }

/-- A tick is taken. The loop of a locker that is gone for good ends instead. -/
def tick (l : Locker) (now : Instant) (t : Ticker) : Locker × List Effect :=
  if l.dropped ∧ l.closer = none then (l.stopTicker, [])
  else
    let due := Ticker.nextDue l.options.interval t.due now
    { l with ticker := some { t with due, stage := .waiting } }.queue now .ticker

/-! ## Dropping -/

/-- The last handle is dropped. If the guard is free the locker is released on the spot. A lock that
was held, or may still be, is given back by an errand where one can be sent out; elsewhere it is
left to expire. -/
def drop (l : Locker) (errands : Bool) : Locker :=
  if l.guard.isFree then
    let gone := { l with phase := .released, dropped := true }
    match l.phase, errands with
    | .held, true => { gone with closer := some .armed }
    | .held, false => gone.stopTicker
    | _, _ => gone
  else if errands then { l with dropped := true, closer := some .blocked }
  else { l with dropped := true }

/-- The errand of a dropped locker sets out. -/
def close (l : Locker) (now : Instant) : Option (Locker × List Effect) :=
  match l.closer with
  | some .armed => some (l.sendRelease now)
  | some .blocked => some ({ l with closer := some .waiting }.queue now .closer)
  | _ => none

/-! ## All events -/

/-- Since when the party has been waiting for the service, if it has. -/
def callingSince (l : Locker) : Party → Option Instant
  | .caller n => match l.caller? n with
    | some ⟨_, _, .calling since⟩ => some since
    | _ => none
  | .ticker => match l.ticker with
    | some ⟨_, _, .calling since⟩ => some since
    | _ => none
  | .closer => match l.closer with
    | some (.calling since) => some since
    | _ => none

/-- The operation that the party asks of the service when it asks. -/
def opOf (l : Locker) : Party → Option Op
  | .caller n => (l.caller? n).bind (·.verb.op)
  | .ticker => some .refresh
  | .closer => some .release

/-- The service has answered the party's call. -/
def answer (l : Locker) (now : Instant) (p : Party) (a : Answer) (draw : Nat) :
    Option (Locker × List Effect) :=
  if l.callingSince p = none then none
  else match p, a with
    | .caller n, a => (l.caller? n).bind fun c => l.answerCaller now n c a draw
    | .ticker, .refresh result => l.ticker.map fun t => (l.answerTicker now t result, [])
    | .closer, .release _ => some ({ l with closer := none }, [])
    | _, _ => none

/-- The party's call has reached its bound: it is dropped, and counts as failed. -/
def expire (l : Locker) (now : Instant) (p : Party) : Option (Locker × List Effect) :=
  match l.options.callTimeout, l.callingSince p, l.opOf p with
  | some limit, some since, some op =>
    if limit.after since ≤ now then
      (l.answer now p (.failed (.timedOut limit) op) 0).map fun (l, effects) =>
        (l, .cut p :: effects)
    else none
  | _, _, _ => none

/-- The caller is cancelled. -/
def cancel (l : Locker) (n : Nat) : Option (Locker × List Effect) :=
  (l.caller? n).map fun _ =>
    (l.removeCaller n, if (l.callingSince (.caller n)).isSome then [.cut (.caller n)] else [])

/-- What an event at `now` makes of a locker, if it can happen. -/
def step (now : Instant) (l : Locker) : Event → Option (Locker × List Effect)
  | .call n verb =>
    if l.dropped ∨ (l.caller? n).isSome then none
    else some ((l.addCaller n ⟨verb, now, .waiting⟩).queue now (.caller n))
  | .resume p => l.proceed now p
  | .answer p a draw => l.answer now p a draw
  | .expire p => l.expire now p
  | .cancel n => l.cancel n
  | .wake n => match l.caller? n with
    | some ⟨_, _, .napping til⟩ =>
      if til ≤ now then some ((l.moveCaller n .waiting).queue now (.caller n)) else none
    | _ => none
  | .tick => match l.ticker with
    | some t => if t.stage = .resting ∧ t.due ≤ now then some (l.tick now t) else none
    | none => none
  | .drop errands =>
    if l.dropped ∨ l.callers ≠ [] then none else some (l.drop errands, [])
  | .close => l.close now

/-! ## What comes next -/

/-- The event that a call under way waits for, and when it is due. -/
def callerAgenda (l : Locker) : List (Instant × Event) :=
  l.callers.filterMap fun (n, c) => match c.stage with
    | .waiting => if l.guard.holder = some (.caller n) then some (0, .resume (.caller n)) else none
    | .calling since => l.options.callTimeout.map fun limit =>
        (limit.after since, .expire (.caller n))
    | .napping til => some (til, .wake n)

/-- The event that the renewal loop waits for, and when it is due. -/
def tickerAgenda (l : Locker) : List (Instant × Event) :=
  l.ticker.toList.filterMap fun t => match t.stage with
    | .resting => some (t.due, .tick)
    | .waiting => if l.guard.holder = some .ticker then some (0, .resume .ticker) else none
    | .calling since => l.options.callTimeout.map fun limit => (limit.after since, .expire .ticker)

/-- The event that the errand of a dropped locker waits for, and when it is due. -/
def closerAgenda (l : Locker) : List (Instant × Event) :=
  l.closer.toList.filterMap fun c => match c with
    | .armed | .blocked => some (0, .close)
    | .waiting => if l.guard.holder = some .closer then some (0, .resume .closer) else none
    | .calling since => l.options.callTimeout.map fun limit => (limit.after since, .expire .closer)

/-- All that the locker waits for by itself, with the instants from which it is due. -/
def agenda (l : Locker) : List (Instant × Event) :=
  l.closerAgenda ++ l.callerAgenda ++ l.tickerAgenda

end LeaseLock.Locker
