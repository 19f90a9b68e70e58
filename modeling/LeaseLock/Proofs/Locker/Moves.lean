import LeaseLock.Locker.Step
import LeaseLock.Proofs.Lookup
import Mathlib.Tactic.Common

/-!
# The moves of a locker

`Locker.step` is a function; this module says once what it can do, so that later proofs go through
the moves and not through the code.

**Turns** (`Turn`). What a party does that has the guard: it is served at once, or it asks the
service, or it has nothing left to do.

**Hearing** (`Heard`). What the service's answer to a party makes of the locker.

**Arrivals** (`Arrival`). How a party comes to the line: a call is made, a nap is over, a tick
falls due, the errand of a dropped locker sets out.

**Steps** (`Stepped`). Every step is one of these, or a call is cut off, or the last handle is
dropped. Main results: `stepped_of_step`, and `exists_answer`, by which an answer of the right
kind is always taken.
-/

namespace LeaseLock

namespace Locker

variable {l l' : Locker} {now : Instant} {p : Party} {n : Nat} {e : Event} {fx : List Effect}

/-! ## Callers by number -/

theorem caller?_addCaller (h : l.caller? n = none) (c : Caller) (m : Nat) :
    (l.addCaller n c).caller? m = if m = n then some c else l.caller? m := by
  unfold caller? addCaller at *
  rw [List.lookup_append, lookup_cons_ite]
  by_cases hm : m = n
  · subst hm
    simp [h]
  · simp [hm]

theorem caller?_moveCaller (l : Locker) (n : Nat) (stage : Caller.Stage) (m : Nat) :
    (l.moveCaller n stage).caller? m =
      if m = n then (l.caller? m).map ({ · with stage }) else l.caller? m := by
  unfold caller? moveCaller
  generalize l.callers = cs
  induction cs with
  | nil => simp
  | cons p cs ih =>
    obtain ⟨k, c⟩ := p
    simp only [List.map_cons]
    by_cases hk : k = n
    · subst hk
      rw [if_pos rfl, lookup_cons_ite, lookup_cons_ite, ih]
      by_cases hm : m = k <;> simp [hm]
    · rw [if_neg hk, lookup_cons_ite, lookup_cons_ite, ih]
      by_cases hm : m = k
      · subst hm
        simp [hk]
      · simp [hm]

theorem caller?_removeCaller (l : Locker) (n m : Nat) :
    (l.removeCaller n).caller? m = if m = n then none else l.caller? m :=
  lookup_filter_ne m n l.callers

theorem caller?_moved {c : Caller} (hc : l.caller? n = some c) (stage : Caller.Stage) :
    (l.moveCaller n stage).caller? n = some { c with stage } := by
  rw [caller?_moveCaller, if_pos rfl, hc]
  rfl

theorem caller?_removed (l : Locker) (n : Nat) : (l.removeCaller n).caller? n = none :=
  (caller?_removeCaller l n n).trans (if_pos rfl)

/-! ## Turns -/

def joined (l : Locker) (p : Party) : Locker := { l with guard := l.guard.join p }

/-- What a call that has the guard returns without asking the service, by the state of the
locker. -/
def atOnce (s : Phase) : Verb → Option (Except LockError Returned)
  | .state => some (.ok (.state s))
  | .lock | .acquire _ => match s with
    | .idle => none
    | .held => some (.ok .done)
    | .released => some (.error .released)
  | .refresh => if s = .held then none else some (.error .notHeld)
  | .unlock => if s = .held then none else some (.ok .done)

/-- What a party that has the guard does with it. -/
inductive Turn (l : Locker) (now : Instant) : Party → Locker → List Effect → Prop
  /-- The call returns, and leaves the locker as it is. -/
  | served {n : Nat} {c : Caller} {r : Except LockError Returned} : l.caller? n = some c →
      c.stage = .waiting → c.verb ≠ .unlock → atOnce l.phase c.verb = some r →
      Turn l now (.caller n) (l.removeCaller n) [.returned n r]
  /-- A locker that is not held is given up. -/
  | surrendered {n : Nat} {c : Caller} : l.caller? n = some c → c.stage = .waiting →
      c.verb = .unlock → l.phase ≠ .held →
      Turn l now (.caller n) ({ l with phase := .released }.removeCaller n)
        [.returned n (.ok .done)]
  | attempted {n : Nat} {c : Caller} : l.caller? n = some c → c.stage = .waiting →
      c.verb.op = some .acquire → l.phase = .idle →
      Turn l now (.caller n) (l.moveCaller n (.calling now)) [.start (.caller n) .acquire]
  | refreshed {n : Nat} {c : Caller} : l.caller? n = some c → c.stage = .waiting →
      c.verb.op = some .refresh → l.phase = .held →
      Turn l now (.caller n) (l.moveCaller n (.calling now)) [.start (.caller n) .refresh]
  /-- Renewal ends, and the release goes out. -/
  | unlocked {n : Nat} {c : Caller} : l.caller? n = some c → c.stage = .waiting →
      c.verb.op = some .release → l.phase = .held →
      Turn l now (.caller n)
        ({ l.stopTicker with phase := .released, health := .idle }.moveCaller n (.calling now))
        [.start (.caller n) .release]
  | ticked {t : Ticker} : l.ticker = some t → t.stage = .waiting → l.phase = .held →
      Turn l now .ticker { l with ticker := some { t with stage := .calling now } }
        [.start .ticker .refresh]
  /-- Nothing is held any more, and the loop ends. -/
  | ended {t : Ticker} : l.ticker = some t → t.stage = .waiting → l.phase ≠ .held →
      Turn l now .ticker l.stopTicker []
  /-- The errand releases the locker and gives its record back. -/
  | returnedBack : l.closer = some .waiting → l.phase = .held →
      Turn l now .closer
        ({ l with phase := .released, guard := l.guard.leave .closer }.sendRelease now).1
        [.start .closer .release]
  /-- The errand finds nothing to give back. -/
  | closed : l.closer = some .waiting → l.phase ≠ .held →
      Turn l now .closer
        { l with phase := .released, guard := l.guard.leave .closer, closer := none } []

theorem turn_of_enterCaller {c : Caller} (hc : l.caller? n = some c) (hs : c.stage = .waiting)
    (h : l.enterCaller now n c.verb = (l', fx)) : Turn l now (.caller n) l' fx := by
  unfold enterCaller at h
  split at h <;> cases h
  next s hv => exact .served hc hs (by simp [hv]) (by simp [hv, atOnce])
  next hv hp => exact .attempted hc hs (by simp [hv, Verb.op]) hp
  next hv hp => exact .attempted hc hs (by simp [hv, Verb.op]) hp
  next hv hp => exact .served hc hs (by simp [hv]) (by simp [hv, hp, atOnce])
  next hv hp => exact .served hc hs (by simp [hv]) (by simp [hv, hp, atOnce])
  next hv hp => exact .served hc hs (by simp [hv]) (by simp [hv, hp, atOnce])
  next hv hp => exact .served hc hs (by simp [hv]) (by simp [hv, hp, atOnce])
  next hv hp => exact .refreshed hc hs (by simp [hv, Verb.op]) hp
  next hv hp => exact .served hc hs (by simp [hv]) (by simpa [hv, atOnce] using hp)
  next hv hp => exact .unlocked hc hs (by simp [hv, Verb.op]) hp
  next hv hp => exact .surrendered hc hs hv hp

/-- A party proceeds only with the guard, and then takes its turn. -/
theorem turn_of_proceed (h : l.proceed now p = some (l', fx)) :
    l.guard.holder = some p ∧ Turn l now p l' fx := by
  unfold proceed at h
  split at h
  · cases h
  next hp =>
    refine ⟨Decidable.of_not_not hp, ?_⟩
    cases p with
    | caller n =>
      simp only at h
      split at h
      next verb began hc =>
        exact turn_of_enterCaller hc rfl (Option.some.inj h)
      · cases h
    | ticker =>
      simp only at h
      split at h
      next t ht =>
        split at h
        next hs =>
          simp only [Option.some.injEq] at h
          unfold enterTicker at h
          split at h <;> cases h
          next hh => exact .ticked ht hs hh
          next hh => exact .ended ht hs hh
        · cases h
      · cases h
    | closer =>
      simp only at h
      split at h
      next hc =>
        simp only [Option.some.injEq] at h
        unfold enterCloser at h
        split at h
        next hh =>
          cases h
          exact .returnedBack hc hh
        next hh =>
          cases h
          exact .closed hc hh
      · cases h

/-! ## Hearing -/

theorem answerTicker_eq (l : Locker) (now : Instant) (t : Ticker) (r : Except LockError Unit) :
    l.answerTicker now t r = { l with
      health := (t.settle l.options.lease now r).1.getD l.health
      ticker := (t.settle l.options.lease now r).2
      guard := l.guard.leave .ticker } := rfl

/-- What an answer of the service makes of the locker. -/
inductive Heard (l : Locker) (now : Instant) : Party → Answer → Locker → List Effect → Prop
  | granted {n : Nat} {c : Caller} : l.caller? n = some c → c.verb.op = some .acquire →
      Heard l now (.caller n) (.acquire (.ok .granted))
        ({ l with
          phase := .held
          health := .healthy
          ticker := some (.start l.options.interval now) }.removeCaller n)
        [.returned n (.ok .done)]
  /-- An attempt has failed for good. -/
  | refused {n : Nat} {c : Caller} {r : Except LockError Attempt} {e : LockError} :
      l.caller? n = some c → c.verb.op = some .acquire → r ≠ .ok .granted →
      Heard l now (.caller n) (.acquire r) (l.removeCaller n) [.returned n (.error e)]
  /-- An attempt has failed, and the caller naps before the next one. -/
  | napped {n : Nat} {c : Caller} {r : Except LockError Attempt} {til : Instant} :
      l.caller? n = some c → c.verb.op = some .acquire → r ≠ .ok .granted →
      Heard l now (.caller n) (.acquire r)
        { l.moveCaller n (.napping til) with guard := l.guard.leave (.caller n) } []
  | refreshed {n : Nat} {c : Caller} {r : Except LockError Unit} :
      l.caller? n = some c → c.verb.op = some .refresh →
      Heard l now (.caller n) (.refresh r) (l.removeCaller n)
        [.returned n (r.map fun () => .done)]
  | released {n : Nat} {c : Caller} {r : Except LockError Unit} :
      l.caller? n = some c → c.verb.op = some .release →
      Heard l now (.caller n) (.release r) (l.removeCaller n)
        [.returned n ((r.map fun () => .done).mapError .unconfirmed)]
  /-- A tick has come out, and its outcome is published. -/
  | ticked {t : Ticker} {r : Except LockError Unit} : l.ticker = some t →
      Heard l now .ticker (.refresh r) (l.answerTicker now t r) []
  /-- The errand of a dropped locker is done. -/
  | closed {r : Except LockError Unit} :
      Heard l now .closer (.release r) { l with closer := none } []

theorem retry_cases (l : Locker) (now : Instant) (n : Nat) (c : Caller) (e : LockError)
    (draw : Nat) :
    (∃ e', l.retry now n c e draw = (l.removeCaller n, [.returned n (.error e')])) ∨
      ∃ til, l.retry now n c e draw =
        ({ l.moveCaller n (.napping til) with guard := l.guard.leave (.caller n) }, []) := by
  unfold retry
  split
  next limit hv =>
    split
    · cases limit with
      | none => exact .inr ⟨_, rfl⟩
      | some limit =>
        simp only
        split
        · exact .inl ⟨_, rfl⟩
        · exact .inr ⟨_, rfl⟩
    · exact .inl ⟨_, rfl⟩
  · exact .inl ⟨_, rfl⟩

theorem heard_of_retry {c : Caller} {r : Except LockError Attempt} {err : LockError} {draw : Nat}
    (hc : l.caller? n = some c) (hv : c.verb.op = some .acquire) (hr : r ≠ .ok .granted)
    (h : l.retry now n c err draw = (l', fx)) :
    Heard l now (.caller n) (.acquire r) l' fx := by
  rcases retry_cases l now n c err draw with ⟨e, he⟩ | ⟨til, ht⟩
  · cases he.symm.trans h
    exact .refused hc hv hr
  · cases ht.symm.trans h
    exact .napped hc hv hr

theorem heard_of_answerCaller {c : Caller} {a : Answer} {draw : Nat} (hc : l.caller? n = some c)
    (h : l.answerCaller now n c a draw = some (l', fx)) : Heard l now (.caller n) a l' fx := by
  unfold answerCaller at h
  split at h
  · cases h
  next hv =>
    have hv := Decidable.of_not_not hv
    split at h <;> simp only [Option.some.injEq] at h
    · cases h
      exact .granted hc hv
    · exact heard_of_retry hc hv (by simp) h
    · exact heard_of_retry hc hv (by simp) h
    · cases h
      exact .refreshed hc hv
    · cases h
      exact .released (r := .ok ()) hc hv
    · cases h
      exact .released (r := .error _) hc hv

theorem heard_of_answer {a : Answer} {draw : Nat} (h : l.answer now p a draw = some (l', fx)) :
    l.callingSince p ≠ none ∧ Heard l now p a l' fx := by
  unfold answer at h
  split at h
  · cases h
  next hp =>
    refine ⟨hp, ?_⟩
    split at h
    next n a =>
      obtain ⟨c, hc, h⟩ := Option.bind_eq_some_iff.1 h
      exact heard_of_answerCaller hc h
    next r =>
      obtain ⟨t, ht, h⟩ := Option.map_eq_some_iff.1 h
      cases h
      exact .ticked ht
    · cases h
      exact .closed
    · cases h

/-- **An answer of the right kind is always taken.** -/
theorem exists_answer {a : Answer} (hp : l.callingSince p ≠ none) (ha : l.opOf p = some a.op)
    (draw : Nat) : ∃ l' fx, l.answer now p a draw = some (l', fx) := by
  unfold answer
  rw [if_neg hp]
  cases p with
  | caller n =>
    obtain ⟨c, hc, hv⟩ := Option.bind_eq_some_iff.1 ha
    simp only [hc, Option.bind_some, answerCaller]
    rw [if_neg (by simp [hv])]
    split <;> exact ⟨_, _, rfl⟩
  | ticker =>
    cases ht : l.ticker with
    | none => simp [callingSince, ht] at hp
    | some t =>
      cases a with
      | refresh r => exact ⟨_, _, rfl⟩
      | acquire r => simp [opOf, Answer.op] at ha
      | release r => simp [opOf, Answer.op] at ha
  | closer =>
    cases a with
    | release r => exact ⟨_, _, rfl⟩
    | acquire r => simp [opOf, Answer.op] at ha
    | refresh r => simp [opOf, Answer.op] at ha

/-! ## Steps -/

/-- How a party comes to the line, which it has not joined yet. -/
inductive Arrival (l : Locker) (now : Instant) : Event → Party → Locker → Prop
  | call {n : Nat} {verb : Verb} : l.dropped = false → l.caller? n = none →
      Arrival l now (.call n verb) (.caller n) (l.addCaller n ⟨verb, now, .waiting⟩)
  | wake {n : Nat} {c : Caller} {til : Instant} : l.caller? n = some c → c.stage = .napping til →
      til ≤ now → Arrival l now (.wake n) (.caller n) (l.moveCaller n .waiting)
  | tick {t : Ticker} : l.ticker = some t → t.stage = .resting → t.due ≤ now →
      ¬(l.dropped ∧ l.closer = none) →
      Arrival l now .tick .ticker { l with
        ticker := some { t with
          due := Ticker.nextDue l.options.interval t.due now
          stage := .waiting } }
  /-- The errand of a dropped locker sets out, to wait for the guard. -/
  | close : l.closer = some .blocked →
      Arrival l now .close .closer { l with closer := some .waiting }

/-- What a step of a locker can be. -/
inductive Stepped (l : Locker) (now : Instant) : Event → Locker → List Effect → Prop
  /-- A party comes, and waits. -/
  | joined {e : Event} {p : Party} {l₀ : Locker} : Arrival l now e p l₀ →
      Stepped l now e (l₀.joined p) []
  /-- A party comes, and it is its turn at once. -/
  | turned {e : Event} {p : Party} {l₀ l' : Locker} {fx : List Effect} : Arrival l now e p l₀ →
      (l₀.joined p).guard.holder = some p → Turn (l₀.joined p) now p l' fx → Stepped l now e l' fx
  | resumed {p : Party} {l' : Locker} {fx : List Effect} : l.guard.holder = some p →
      Turn l now p l' fx → Stepped l now (.resume p) l' fx
  | answered {p : Party} {a : Answer} {draw : Nat} {l' : Locker} {fx : List Effect} :
      l.callingSince p ≠ none → Heard l now p a l' fx → Stepped l now (.answer p a draw) l' fx
  /-- A call is cut off at its bound, and counts as failed. -/
  | expired {p : Party} {limit : Duration} {op : Op} {l' : Locker} {fx : List Effect} :
      l.callingSince p ≠ none → l.opOf p = some op →
      Heard l now p (.failed (.timedOut limit) op) l' fx →
      Stepped l now (.expire p) l' (.cut p :: fx)
  /-- A caller that had asked the service is cancelled. -/
  | cut {n : Nat} : l.callingSince (.caller n) ≠ none →
      Stepped l now (.cancel n) (l.removeCaller n) [.cut (.caller n)]
  /-- A caller that had not asked the service is cancelled. -/
  | cancelled {n : Nat} : l.callingSince (.caller n) = none →
      Stepped l now (.cancel n) (l.removeCaller n) []
  /-- The loop of a locker that is gone for good ends. -/
  | lapsed {t : Ticker} : l.ticker = some t → t.stage = .resting → l.dropped = true →
      l.closer = none → Stepped l now .tick l.stopTicker []
  | dropped {errands : Bool} : l.dropped = false → l.callers = [] →
      Stepped l now (.drop errands) (l.drop errands) []
  /-- The errand of a dropped locker gives the record back, without the guard. -/
  | sent : l.closer = some .armed →
      Stepped l now .close (l.sendRelease now).1 [.start .closer .release]

theorem stepped_of_queue {l₀ : Locker} (ha : Arrival l now e p l₀)
    (h : l₀.queue now p = (l', fx)) : Stepped l now e l' fx := by
  unfold queue at h
  change ((l₀.joined p).proceed now p).getD (l₀.joined p, []) = (l', fx) at h
  cases hp : (l₀.joined p).proceed now p with
  | none =>
    rw [hp] at h
    cases h
    exact .joined ha
  | some r =>
    rw [hp] at h
    cases h
    obtain ⟨hh, ht⟩ := turn_of_proceed hp
    exact .turned ha hh ht

/-- A call that is cut off at its bound counts as answered with a failure. -/
theorem answer_of_expire (h : l.expire now p = some (l', fx)) :
    ∃ limit op fx', l.options.callTimeout = some limit ∧ l.opOf p = some op ∧ fx = .cut p :: fx' ∧
      l.answer now p (.failed (.timedOut limit) op) 0 = some (l', fx') := by
  unfold expire at h
  split at h
  next limit since op hlimit _ hop =>
    split at h
    · obtain ⟨⟨l₁, fx₁⟩, ha, h⟩ := Option.map_eq_some_iff.1 h
      cases h
      exact ⟨limit, op, fx₁, hlimit, hop, rfl, ha⟩
    · cases h
  · cases h

theorem bound_of_expire (h : l.expire now p = some (l', fx)) :
    ∃ limit op fx', l.options.callTimeout = some limit ∧ l.callingSince p ≠ none ∧
      l.opOf p = some op ∧ fx = .cut p :: fx' ∧
      Heard l now p (.failed (.timedOut limit) op) l' fx' := by
  obtain ⟨limit, op, fx', hlimit, hop, hfx, ha⟩ := answer_of_expire h
  obtain ⟨hp, hh⟩ := heard_of_answer ha
  exact ⟨limit, op, fx', hlimit, hp, hop, hfx, hh⟩

/-- **A step is one of the moves.** -/
theorem stepped_of_step (h : l.step now e = some (l', fx)) : Stepped l now e l' fx := by
  cases e with
  | call n verb =>
    simp only [step] at h
    split at h
    · cases h
    next hn =>
      simp only [not_or, Bool.not_eq_true, Option.isSome_eq_false_iff, Option.isNone_iff_eq_none]
        at hn
      exact stepped_of_queue (.call hn.1 hn.2) (Option.some.inj h)
  | resume p =>
    obtain ⟨hh, ht⟩ := turn_of_proceed h
    exact .resumed hh ht
  | answer p a draw =>
    obtain ⟨hp, hh⟩ := heard_of_answer h
    exact .answered hp hh
  | expire p =>
    obtain ⟨limit, op, fx', -, hp, hop, rfl, hh⟩ := bound_of_expire h
    exact .expired hp hop hh
  | cancel n =>
    obtain ⟨c, hc, h⟩ := Option.map_eq_some_iff.1 h
    cases h
    split
    next hp => exact .cut (Option.isSome_iff_ne_none.1 hp)
    next hp => exact .cancelled (by simpa using hp)
  | wake n =>
    simp only [step] at h
    split at h
    next hc =>
      split at h
      next ht => exact stepped_of_queue (.wake hc rfl ht) (Option.some.inj h)
      · cases h
    · cases h
  | tick =>
    simp only [step] at h
    split at h
    next t ht =>
      split at h
      next hd =>
        have h := Option.some.inj h
        unfold tick at h
        split at h
        next hg =>
          cases h
          exact .lapsed ht hd.1 hg.1 hg.2
        next hg => exact stepped_of_queue (.tick ht hd.1 hd.2 hg) h
      · cases h
    · cases h
  | drop errands =>
    simp only [step] at h
    split at h
    · cases h
    next hd =>
      cases h
      simp only [not_or, Bool.not_eq_true, ne_eq, Decidable.not_not] at hd
      exact .dropped hd.1 hd.2
  | close =>
    simp only [step, close] at h
    split at h
    next hc =>
      cases h
      exact .sent hc
    next hc => exact stepped_of_queue (.close hc) (Option.some.inj h)
    · cases h

/-! ## Effects -/

/-- Nothing goes to the service and nothing is cut off. -/
def Returns (fx : List Effect) : Prop := ∀ x ∈ fx, ∃ n r, x = .returned n r

theorem returns_nil : Returns [] := fun _ hx => by cases hx

theorem returns_singleton (n : Nat) (r : Except LockError Returned) : Returns [.returned n r] :=
  fun _ hx => ⟨n, r, List.mem_singleton.1 hx⟩

theorem Returns.not_start {op : Op} (hr : Returns fx) : .start p op ∉ fx := by
  intro h
  obtain ⟨_, _, heq⟩ := hr _ h
  cases heq

theorem not_returns_start {op : Op} : ¬Returns [.start p op] :=
  fun hr => hr.not_start List.mem_cons_self

theorem Turn.effects (t : Turn l now p l' fx) : Returns fx ∨ ∃ op, fx = [.start p op] := by
  cases t with
  | served | surrendered => exact .inl (returns_singleton _ _)
  | ended | closed => exact .inl returns_nil
  | attempted | refreshed | unlocked | ticked | returnedBack => exact .inr ⟨_, rfl⟩

theorem Heard.returns {a : Answer} (t : Heard l now p a l' fx) : Returns fx := by
  cases t with
  | granted | refused | refreshed | released => exact returns_singleton _ _
  | napped | ticked | closed => exact returns_nil

/-- A step lets calls on the locker return, sends one call out, or cuts one off. -/
theorem Stepped.effects (s : Stepped l now e l' fx) :
    Returns fx ∨ (∃ p op, fx = [.start p op]) ∨ ∃ p fx', fx = .cut p :: fx' ∧ Returns fx' := by
  cases s with
  | joined | cancelled | lapsed | dropped => exact .inl returns_nil
  | turned _ _ ht | resumed _ ht => exact ht.effects.imp_right fun h => .inl ⟨_, h⟩
  | answered _ hh => exact .inl hh.returns
  | expired _ _ hh => exact .inr (.inr ⟨_, _, rfl, hh.returns⟩)
  | cut => exact .inr (.inr ⟨_, _, rfl, returns_nil⟩)
  | sent => exact .inr (.inl ⟨_, _, rfl⟩)

theorem Stepped.eq_start {op : Op} (s : Stepped l now e l' fx) (hfx : .start p op ∈ fx) :
    fx = [.start p op] := by
  rcases s.effects with hr | ⟨q, op', rfl⟩ | ⟨q, fx', rfl, hr⟩
  · exact absurd hfx hr.not_start
  · cases List.mem_singleton.1 hfx
    rfl
  · exact absurd ((List.mem_cons.1 hfx).resolve_left nofun) hr.not_start

end Locker

end LeaseLock
