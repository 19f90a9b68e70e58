import LeaseLock.Memory.Store
import LeaseLock.Proofs.Locker.Cadence
import LeaseLock.Proofs.Locker.Naps

/-!
# Nothing leaves its range

**Guarded operations.** Some of what a locker computes has a value only in a range: a draw needs a
range that is not empty, a difference must not be negative, an instant has to be one that the clock
can show, a count has to fit in 64 bits, and a loop needs an interval. The guarded operations
(`fit?`, `draw?`, `Duration.minus?`, `Duration.after?`, `Ticker.start?`, `Options.rest?`) give
nothing outside that range.

**Usable options never leave it** (`Exact`). What is computed from the options alone is what the
guarded operations give.

**Nor does a locker in a run** (`Run.dueBy`, `Run.inRange`). A step changes when the next tick is
due only by starting the loop or by taking a tick, and either way the next one is an interval away
at most. A nap is only begun before the limit of its call.

Main result: `usable_in_range`.
-/

namespace LeaseLock

/-! ## Guarded operations -/

/-- The number, if it is no greater than `top`. -/
def fit? (top n : Nat) : Option Nat := if n ≤ top then some n else none

/-- What is drawn from the range, unless the range is empty. -/
def draw? (low high draw : Nat) : Option Nat :=
  if low ≤ high then some (low + draw % (high - low + 1)) else none

namespace Duration

/-- What is left of the duration after `spent`, unless there is not as much. -/
def minus? (d spent : Duration) : Option Duration :=
  if spent ≤ d then some ⟨d.nanos - spent.nanos⟩ else none

/-- The time that has passed since `start`, unless `start` is yet to come. -/
def since? (start now : Instant) : Option Duration :=
  if start ≤ now then some ⟨now - start⟩ else none

/-- The instant that lies this far after `t`, if the clock can show it. -/
def after? (d : Duration) (t : Instant) : Option Instant :=
  if d.after t < Memory.Store.clockRange then some (d.after t) else none

end Duration

/-- The loop of a lock taken at `now`, if it has an interval and the first tick an instant. -/
def Ticker.start? (every : Duration) (now : Instant) : Option Ticker :=
  if every.isZero then none
  else (every.after? now).map fun due => ⟨due, now, .resting⟩

namespace Options

variable {o : Options}

/-- A nap, if there is one to draw. -/
def nap? (o : Options) (draw : Nat) : Option Duration :=
  (draw? o.minNap.millis64 o.maxNap.millis64 draw).map .ofMillis

/-- A rest, if there is a nap to draw and time left. -/
def rest? (o : Options) (limit : Option Duration) (start now : Instant) (draw : Nat) :
    Option Duration := do
  let nap ← o.nap? draw
  match limit with
  | none => return nap
  | some limit =>
    let left ← limit.minus? (← Duration.since? start now)
    return ⟨min nap.nanos left.nanos⟩

/-! ## Usable options -/

/-- What is computed from the options alone is what the guarded operations give. -/
structure Exact (o : Options) : Prop where
  interval : 0 < o.interval.nanos
  /-- The seconds of the lease are rounded up, and not cut. -/
  secs : fit? maxInt64 o.lease.coveringSecs = some o.wholeSecs
  millis : fit? maxInt64 o.lease.millis = some o.wholeMillis
  /-- A bound of the naps below 2⁶⁴ milliseconds is not cut. -/
  bounds : ∀ d ∈ [o.minNap, o.maxNap], d < .ofMillis (maxUInt64 + 1) →
    fit? maxUInt64 d.millis = some d.millis64
  /-- There is always a nap to draw, however long the bounds are. -/
  naps : ∀ draw, o.nap? draw = some (o.nap draw)

theorem fit?_eq_some {top n : Nat} (h : n ≤ top) : fit? top n = some (min n top) := by
  rw [fit?, if_pos h, Nat.min_eq_left h]

theorem Usable.nap? (h : o.Usable) (draw : Nat) : o.nap? draw = some (o.nap draw) := by
  rw [Options.nap?, draw?, if_pos h.millis64_le]
  rfl

theorem Usable.exact (h : o.Usable) : o.Exact where
  interval := h.interval_pos
  secs := fit?_eq_some (Nat.le_trans h.coveringSecs_le (by decide))
  millis := fit?_eq_some h.millis_le
  bounds d _ hd := fit?_eq_some (Nat.le_of_lt_succ ((Nat.div_lt_iff_lt_mul (by decide)).2 hd))
  naps := h.nap?

/-- A lease that starts early enough ends at an instant that the clock can show. -/
theorem Usable.lease_after_lt (h : o.Usable) {now : Nat}
    (hnow : now < (maxInt64 + 1 - 86400) * Duration.perSecond) :
    o.lease.after now < Memory.Store.clockRange := by
  have hday : o.lease.nanos ≤ maxLease.nanos := h.lease_le
  have hmax : maxLease.nanos = 86400 * Duration.perSecond := by decide
  show now + o.lease.nanos < (maxInt64 + 1) * Duration.perSecond
  simp only [maxInt64, Duration.perSecond] at hnow hmax ⊢
  omega

/-- The interval is shorter than the lease, so the first tick has an instant too. -/
theorem Usable.start? (h : o.Usable) {now : Nat}
    (hnow : now < (maxInt64 + 1 - 86400) * Duration.perSecond) :
    Ticker.start? o.interval now = some (.start o.interval now) := by
  have hfirst : o.interval.after now < Memory.Store.clockRange :=
    Nat.lt_trans (Nat.add_lt_add_left h.interval_lt now) (h.lease_after_lt hnow)
  have hsome : ¬o.interval.isZero = true :=
    fun hz => Nat.ne_of_gt h.interval_pos (Duration.isZero_iff.1 hz)
  rw [Ticker.start?, if_neg hsome, Duration.after?, if_pos hfirst]
  rfl

theorem Usable.rest? (h : o.Usable) {limit : Option Duration} {start now : Instant} (draw : Nat)
    (hle : start ≤ now) (hleft : ∀ lim, limit = some lim → now - start < lim.nanos) :
    o.rest? limit start now draw = some (o.rest limit start now draw) := by
  unfold Options.rest?
  rw [h.nap?]
  cases limit with
  | none => rfl
  | some lim =>
    have hspent : (⟨now - start⟩ : Duration) ≤ lim := Nat.le_of_lt (hleft lim rfl)
    simp only [Option.bind_eq_bind, Option.bind_some, Duration.since?, if_pos hle, Duration.minus?,
      if_pos hspent]
    rfl

end Options

namespace Locker

variable {l l' : Locker} {h : History} {now bound : Nat} {e : Event} {fx : List Effect}
  {p : Party} {a : Answer} {o : Options}

/-! ## The next tick -/

/-- If there is a loop, its next tick is due by then. -/
def DueBy (l : Locker) (bound : Nat) : Prop := ∀ t, l.ticker = some t → t.due ≤ bound

theorem DueBy.mono {bound' : Nat} (h : l.DueBy bound) (hle : bound ≤ bound') : l.DueBy bound' :=
  fun t ht => Nat.le_trans (h t ht) hle

theorem DueBy.congr (h : l.DueBy bound) (ht : l'.ticker = l.ticker) : l'.DueBy bound :=
  fun t ht' => h t (ht ▸ ht')

theorem dueBy_of_none (h : l.ticker = none) : l.DueBy bound := by
  intro t ht
  cases h.symm.trans ht

theorem Turn.dueBy (t : Turn l now p l' fx) (h : l.DueBy bound) : l'.DueBy bound := by
  cases t with
  | served | surrendered | attempted | refreshed | closed => exact h.congr rfl
  | unlocked | ended | returnedBack => exact dueBy_of_none rfl
  | @ticked t ht =>
    rintro _ ⟨⟩
    exact h t ht

theorem Heard.dueBy (t : Heard l now p a l' fx) (h : l.DueBy bound)
    (hb : l.options.interval.after now ≤ bound) : l'.DueBy bound := by
  cases t with
  | granted =>
    rintro _ ⟨⟩
    exact hb
  | refused | napped | refreshed | released | closed => exact h.congr rfl
  | @ticked t r ht =>
    intro t' ht'
    rw [(settle_resting ht').1]
    exact h t ht

theorem Arrival.dueBy (ha : Arrival l now e p l') (h : l.DueBy bound)
    (hb : l.options.interval.after now ≤ bound) : l'.DueBy bound := by
  cases ha with
  | call | wake | close => exact h.congr rfl
  | @tick t _ _ hdue =>
    rintro _ ⟨⟩
    exact Nat.le_trans (Ticker.nextDue_le hdue) hb

theorem dueBy_drop (errands : Bool) (h : l.DueBy bound) : (l.drop errands).DueBy bound := by
  unfold drop
  split
  · cases l.phase <;> cases errands <;> first | exact h.congr rfl | exact dueBy_of_none rfl
  · cases errands <;> exact h.congr rfl

/-- **After a step the next tick is due** when it was before, or within an interval. -/
theorem Stepped.dueBy (s : Stepped l now e l' fx) (h : l.DueBy bound)
    (hb : l.options.interval.after now ≤ bound) : l'.DueBy bound := by
  cases s with
  | joined ha => exact (ha.dueBy h hb).congr rfl
  | turned ha _ ht => exact ht.dueBy ((ha.dueBy h hb).congr rfl)
  | resumed _ ht => exact ht.dueBy h
  | answered _ hh | expired _ _ hh => exact hh.dueBy h hb
  | cut | cancelled => exact h.congr rfl
  | lapsed | sent => exact dueBy_of_none rfl
  | dropped => exact dueBy_drop _ h

/-- **The next tick is due within an interval**, in every run. -/
theorem Run.dueBy (run : Run l h) : l.DueBy (l.options.interval.after (latest h)) := by
  induction run with
  | made hm =>
    obtain ⟨-, rfl⟩ := make_eq_ok_iff.1 hm
    exact dueBy_of_none rfl
  | step _ ht hs ih =>
    have st := stepped_of_step hs
    rw [st.options]
    exact st.dueBy (ih.mono (Nat.add_le_add_right ht _)) (Nat.le_refl _)

/-! ## Whole runs -/

/-- What a step begins is what the guarded operations give, and the clock can show it. -/
structure InRange (l : Locker) (now : Instant) (e : Event) (l' : Locker) : Prop where
  /-- A lock that is taken has an interval, and its first tick an instant. -/
  starts : ∀ p draw, e = .answer p (.acquire (.ok .granted)) draw →
    ∃ t, Ticker.start? l.options.interval now = some t ∧ l'.ticker = some t
  /-- Every later tick has an instant as well. -/
  ticks : ∀ t, l'.ticker = some t → t.due < Memory.Store.clockRange
  /-- A call that goes to sleep has a nap to draw, and time left. -/
  naps : ∀ n limit start c til, e.party? = some (.caller n) → MadeAt l now e n limit start →
    l'.caller? n = some c → c.stage = .napping til →
    ∃ draw d, l.options.rest? limit start now draw = some d ∧ til = d.after now

theorem ticker_of_granted {draw : Nat}
    (hs : Locker.step now l (.answer p (.acquire (.ok .granted)) draw) = some (l', fx)) :
    l'.ticker = some (.start l.options.interval now) := by
  cases stepped_of_step hs with
  | joined ha | turned ha => cases ha
  | answered _ hh =>
    cases hh with
    | granted => rfl
    | refused _ _ hr | napped _ _ hr => exact absurd rfl hr

theorem Run.inRange (run : Run l h) (ht : latest h ≤ now)
    (hnow : now < (maxInt64 + 1 - 86400) * Duration.perSecond)
    (hs : Locker.step now l e = some (l', fx)) : InRange l now e l' where
  starts := by
    rintro p draw rfl
    exact ⟨_, (Options.check_eq_ok_iff.1 run.check).start? hnow, ticker_of_granted hs⟩
  ticks t htick := by
    have usable := Options.check_eq_ok_iff.1 run.check
    have before := run.dueBy.mono (Nat.add_le_add_right ht _)
    have hdue : t.due ≤ l.options.interval.after now :=
      (stepped_of_step hs).dueBy before (Nat.le_refl _) t htick
    have hend := Nat.add_lt_add_left usable.interval_lt now
    exact Nat.lt_of_le_of_lt hdue (Nat.lt_trans hend (usable.lease_after_lt hnow))
  naps n limit start c til hp hm hc hstage := by
    have hle := run.start_le ht hm
    obtain ⟨hleft, draw, rfl⟩ := til_of_step hs hp hm hle hc hstage
    exact ⟨draw, _, (Options.check_eq_ok_iff.1 run.check).rest? draw hle hleft, rfl⟩

/-- **Usable options never leave a range.** For all options that the check accepts: there is an
interval between ticks; the seconds and milliseconds of the lease, and every bound of the naps below
2⁶⁴ milliseconds, are not cut; and there is a nap to draw. As long as the clock is more than a day
before the last instant that it can show, a lease that begins now ends at an instant that it can
show; and whatever happens next to any locker with these options, after any history: a loop that is
started has an interval and a first tick, every tick that is scheduled has an instant, and a call to
acquire that goes to sleep has time left, whatever its limit. -/
theorem usable_in_range (ho : o.check = .ok ()) :
    o.Exact ∧
    ∀ now, now < (maxInt64 + 1 - 86400) * Duration.perSecond →
      Memory.Store.leaseEnd now o = .ok (o.lease.after now) ∧
      ∀ l h e l' fx, Run l h → l.options = o → latest h ≤ now →
        Locker.step now l e = some (l', fx) → InRange l now e l' := by
  have usable := Options.check_eq_ok_iff.1 ho
  refine ⟨usable.exact, fun now hnow => ⟨?_, ?_⟩⟩
  · exact if_neg (Nat.not_le.2 (usable.lease_after_lt hnow))
  · rintro l h e l' fx run rfl ht hs
    exact run.inRange ht hnow hs

/-- A call with a limit of 100 ms has asked the service. -/
def limited : Locker where
  options := ownedByA
  guard := ⟨[.caller 0]⟩
  callers := [(0, ⟨.acquire (some (.ofMillis 100)), 0, .calling 0⟩)]

/-- It meets another holder after 30 ms, and draws a nap of 410 ms, which is clipped to the time
left; or it takes the lock, and ticks begin. -/
theorem usable_in_range_limited :
    ∃ h, Run limited h ∧ latest h = 0 ∧
      (∃ l' fx, Locker.step 30000000 limited
          (.answer (.caller 0) (.acquire (.ok (.occupied (some "b")))) 400) = some (l', fx) ∧
        ∃ draw d, ownedByA.rest? (some (.ofMillis 100)) 0 30000000 draw = some d ∧
          100000000 = d.after 30000000) ∧
      ∃ l' fx, Locker.step 30000000 limited (.answer (.caller 0) (.acquire (.ok .granted)) 0) =
          some (l', fx) ∧
        ∃ t, Ticker.start? ownedByA.interval 30000000 = some t ∧ l'.ticker = some t := by
  have usable : ownedByA.check = .ok () := rfl
  have made : Run { options := ownedByA } [] := .made (make_eq_ok_iff.2 ⟨usable, rfl⟩)
  have asked : Run limited _ :=
    .step (e := .call 0 (.acquire (some (.ofMillis 100)))) made (Nat.le_refl 0) rfl
  obtain ⟨-, safe⟩ := usable_in_range usable
  obtain ⟨-, steps⟩ := safe 30000000 (by decide)
  have refused := steps limited _ (.answer (.caller 0) (.acquire (.ok (.occupied (some "b")))) 400)
    _ _ asked rfl (by decide) rfl
  have granted := steps limited _ (.answer (.caller 0) (.acquire (.ok .granted)) 0) _ _ asked rfl
    (by decide) rfl
  refine ⟨_, asked, rfl, ⟨_, _, rfl, ?_⟩, ⟨_, _, rfl, granted.starts _ _ rfl⟩⟩
  exact refused.naps 0 (some (.ofMillis 100)) 0 _ _ rfl (.inr ⟨⟨_, rfl⟩, nofun⟩) rfl rfl

end Locker

end LeaseLock
