import LeaseLock.Proofs.Locker.AtRest
import LeaseLock.Proofs.Locker.Renewal
import LeaseLock.Proofs.World.Pace

/-!
# The cadence of renewal on a slow service

**Tenures** (`Tenure`). A lock is taken, and from then on only its renewal loop acts on it. Every
call is answered within a bound, and takes effect at some instant between its start and its
answer; no refresh fails. Ticks are taken when they fall due, or at the next instant of the grain
of the clock, or, if the refresh before is still out then, right after its answer.

**On course** (`OnCourse`). The lease that began with the latest effect is not over before the next
refresh will have been answered (`Ahead`). Why: a tick falls due within an interval of the one
before (`nextDue_le`), which began no later than it took effect. So from one effect to the answer
of the next refresh it takes an interval and a call at most, and after the grant another call.

Main result: `Tenure.within_lease`, from `Tenure.onCourse`, which is by induction over the tenure.
It needs a lease that is longer than an interval and two calls.
-/

namespace LeaseLock

theorem Ticker.nextDue_le {every : Duration} {due now : Nat} (hdue : due ≤ now) :
    Ticker.nextDue every due now ≤ now + every.nanos := by
  unfold Ticker.nextDue
  split
  · exact Nat.add_le_add_right hdue _
  · exact Nat.sub_le ..

namespace Locker

open World (roundUp le_roundUp roundUp_lt)

variable {l l' : Locker} {h : History} {now til since x : Nat} {e : Event} {fx : List Effect}
  {p : Party} {n draw grain : Nat} {bound : Duration} {marks : List Nat}

/-! ## Tenures -/

/-- The lock was taken, and only its renewal loop has acted on it since. Every call is answered
within the bound, no refresh fails, and the instants at which the grant and the refreshes took
effect are listed, the latest first. -/
inductive Tenure (grain : Nat) (bound : Duration) : Locker → Nat → List Nat → Prop
  | granted {l l' : Locker} {h : History} {n draw now since x : Nat} {fx : List Effect} :
      Run l h → latest h ≤ now → l.callingSince (.caller n) = some since →
      now ≤ since + bound.nanos → since ≤ x → x ≤ now →
      l.step now (.answer (.caller n) (.acquire (.ok .granted)) draw) = some (l', fx) →
      l'.guard.line = [] → Tenure grain bound l' now [x]
  /-- Time passes, but not beyond the next tick, nor beyond the bound of a call that is out. -/
  | passed {l : Locker} {now til : Nat} {marks : List Nat} : Tenure grain bound l now marks →
      now ≤ til → (∀ due, (due, .tick) ∈ l.agenda → til ≤ max now (roundUp grain due)) →
      (∀ since, l.callingSince .ticker = some since → til ≤ since + bound.nanos) →
      Tenure grain bound l til marks
  /-- A tick is taken, or gets the guard that it has waited for. -/
  | ticked {l l' : Locker} {now : Nat} {marks : List Nat} {e : Event} {fx : List Effect} :
      Tenure grain bound l now marks → e = .tick ∨ e = .resume .ticker →
      l.step now e = some (l', fx) → Tenure grain bound l' now marks
  | renewed {l l' : Locker} {now since x draw : Nat} {marks : List Nat} {fx : List Effect} :
      Tenure grain bound l now marks → l.callingSince .ticker = some since →
      since ≤ x → x ≤ now →
      l.step now (.answer .ticker (.refresh (.ok ())) draw) = some (l', fx) →
      Tenure grain bound l' now (x :: marks)

/-- The options leave room for an interval, two calls and a grain within the lease. -/
structure Roomy (grain : Nat) (bound : Duration) (o : Options) : Prop where
  pos : 0 < grain
  room : o.interval.nanos + 2 * bound.nanos + grain ≤ o.lease.nanos

theorem roomy_of_dvd {o : Options} (hg : 0 < grain) (hi : grain ∣ o.interval.nanos)
    (hb : grain ∣ bound.nanos) (hl : grain ∣ o.lease.nanos)
    (hlt : o.interval.nanos + 2 * bound.nanos < o.lease.nanos) : Roomy grain bound o where
  pos := hg
  room := by
    have hsum : grain ∣ o.interval.nanos + 2 * bound.nanos :=
      Nat.dvd_add hi (Nat.dvd_mul_left_of_dvd hb 2)
    have hgap : grain ≤ o.lease.nanos - (o.interval.nanos + 2 * bound.nanos) :=
      Nat.le_of_dvd (Nat.sub_pos_of_lt hlt) (Nat.dvd_sub hl hsum)
    omega

/-- The lease that began at `x` is not over before the next refresh will have been answered. -/
inductive Ahead (grain : Nat) (bound : Duration) (now x : Nat) (l : Locker) : Ticker → Prop
  /-- The loop rests; the next tick comes now or when it is due. -/
  | resting {due renewed : Nat} : l.guard.line = [] →
      max now (roundUp grain due) + bound.nanos < x + l.options.lease.nanos →
      Ahead grain bound now x l ⟨due, renewed, .resting⟩
  /-- A refresh is out; the tick after it is due within an interval of its start. -/
  | calling {due renewed since : Nat} : l.guard.line = [.ticker] → x ≤ since → since ≤ now →
      now ≤ since + bound.nanos → since + bound.nanos < x + l.options.lease.nanos →
      due ≤ since + l.options.interval.nanos →
      Ahead grain bound now x l ⟨due, renewed, .calling since⟩

/-- Effects, the latest first, that follow each other within less than a lease. -/
def WithinLease (lease : Duration) (marks : List Nat) : Prop :=
  marks.IsChain fun later earlier => earlier ≤ later ∧ later < earlier + lease.nanos

structure OnCourse (grain : Nat) (bound : Duration) (now : Nat) (l : Locker) (marks : List Nat) :
    Prop where
  held : l.phase = .held
  healthy : l.health = .healthy
  inUse : l.dropped = false
  ahead : ∃ x older t, marks = x :: older ∧ x ≤ now ∧ l.ticker = some t ∧
    Ahead grain bound now x l t
  within : WithinLease l.options.lease marks

/-- **The room that is left.** A tick that is due within an interval and a call of an instant, at
which no effect is later than `x`, is answered before the lease from `x` is over. -/
theorem Roomy.answered_in_time {due : Nat} (hr : Roomy grain bound l.options) (hx : since ≤ x)
    (hnow : now ≤ since + bound.nanos)
    (hdue : due ≤ since + bound.nanos + l.options.interval.nanos) :
    max now (roundUp grain due) + bound.nanos < x + l.options.lease.nanos := by
  have hlt := Nat.succ_le_of_lt (roundUp_lt hr.pos due)
  have hpos := hr.pos
  have hroom := hr.room
  rcases Nat.le_total now (roundUp grain due) with hle | hle
  · rw [Nat.max_eq_right hle]
    omega
  · rw [Nat.max_eq_left hle]
    omega

/-! ## Steps of a tenure -/

theorem Roomy.granted (hr : Roomy grain bound l'.options) (run : Run l h)
    (hnow : now ≤ since + bound.nanos) (hx : since ≤ x) (hle : x ≤ now)
    (hs : l.step now (.answer (.caller n) (.acquire (.ok .granted)) draw) = some (l', fx))
    (hfree : l'.guard.line = []) : OnCourse grain bound now l' [x] := by
  obtain ⟨-, hh⟩ := heard_of_answer hs
  cases hh with
  | refused _ _ hne => exact absurd rfl hne
  | napped _ _ hne => exact absurd rfl hne
  | @granted n c hc hv =>
    refine ⟨rfl, rfl, run.not_dropped hc, ⟨x, [], _, rfl, hle, rfl, ?_⟩, .singleton _⟩
    refine .resting hfree (hr.answered_in_time hx hnow ?_)
    show now + l.options.interval.nanos ≤ _
    exact Nat.add_le_add_right hnow _

theorem OnCourse.passed (hc : OnCourse grain bound now l marks) (hle : now ≤ til)
    (hticks : ∀ due, (due, .tick) ∈ l.agenda → til ≤ max now (roundUp grain due))
    (hcalls : ∀ since, l.callingSince .ticker = some since → til ≤ since + bound.nanos) :
    OnCourse grain bound til l marks := by
  obtain ⟨held, healthy, inUse, ⟨x, older, t, rfl, hx, ht, ha⟩, within⟩ := hc
  refine ⟨held, healthy, inUse, ⟨x, older, t, rfl, Nat.le_trans hx hle, ht, ?_⟩, within⟩
  cases ha with
  | @resting due renewed hfree hroom =>
    have hdue : (due, .tick) ∈ l.agenda := by
      refine List.mem_append_right _ ?_
      simp [tickerAgenda, ht]
    refine .resting hfree (Nat.lt_of_le_of_lt ?_ hroom)
    refine Nat.add_le_add_right (Nat.max_le.2 ⟨hticks due hdue, Nat.le_max_right ..⟩) _
  | @calling due renewed since hline hxs hsince _ hroom hdue =>
    have hcalling : l.callingSince .ticker = some since := by
      rw [callingSince_ticker, ht]
      rfl
    exact .calling hline hxs (Nat.le_trans hsince hle) (hcalls since hcalling) hroom hdue

/-- What a tick makes of a locker whose guard is free: its refresh is out. -/
inductive Called (l : Locker) (now : Nat) : Locker → List Effect → Prop
  | asked {t : Ticker} {g : Guard} : l.ticker = some t → t.due ≤ now → g.line = [.ticker] →
      Called l now { l with
        guard := g
        ticker := some ⟨Ticker.nextDue l.options.interval t.due now, t.renewed, .calling now⟩ }
        [.start .ticker .refresh]

theorem Called.effects (c : Called l now l' fx) : fx = [.start .ticker .refresh] := by
  cases c
  rfl

theorem Arrival.called {l₀ : Locker} (ha : Arrival l now .tick p l₀) (hfree : l.guard.line = [])
    (held : l.phase = .held) (hs : l.step now .tick = some (l', fx)) : Called l now l' fx := by
  have hline := ha.line hfree
  have hturn := ha.turn hfree hs
  cases ha with
  | tick ht _ hdue _ =>
    cases hturn with
    | ended _ _ hp => exact absurd held hp
    | ticked ht' =>
      cases ht'
      exact .asked ht hdue hline

/-- **A tick asks the service at once**, since nobody else has the guard. -/
theorem called_of_free (hfree : l.guard.line = []) (held : l.phase = .held)
    (inUse : l.dropped = false) (hs : l.step now .tick = some (l', fx)) : Called l now l' fx := by
  cases stepped_of_step hs with
  | joined ha | turned ha => exact ha.called hfree held hs
  | lapsed _ _ hd =>
    rw [inUse] at hd
    cases hd

/-- A loop that waits for an answer takes no tick, and waits for no guard. -/
theorem OnCourse.ticked (hc : OnCourse grain bound now l marks)
    (he : e = .tick ∨ e = .resume .ticker) (hs : l.step now e = some (l', fx)) :
    OnCourse grain bound now l' marks := by
  obtain ⟨held, healthy, inUse, ⟨x, older, t, rfl, hx, ht, ha⟩, within⟩ := hc
  rcases he with rfl | rfl
  · cases ha with
    | @resting due renewed hfree hroom =>
      have hlate : now + bound.nanos < x + l.options.lease.nanos :=
        Nat.lt_of_le_of_lt (Nat.add_le_add_right (Nat.le_max_left ..) _) hroom
      obtain ⟨ht', hdue, hline⟩ := called_of_free hfree held inUse hs
      obtain rfl := Option.some.inj (ht'.symm.trans ht)
      refine ⟨held, healthy, inUse, ⟨x, older, _, rfl, hx, rfl, ?_⟩, within⟩
      exact .calling hline hx (Nat.le_refl _) (Nat.le_add_right ..) hlate
        (Ticker.nextDue_le hdue)
    | calling =>
      simp [step, ht] at hs
  · obtain ⟨hholder, hturn⟩ := turn_of_proceed (show l.proceed now .ticker = _ from hs)
    cases ha with
    | resting hfree => simp [Guard.holder, hfree] at hholder
    | calling =>
      cases hturn with
      | ticked ht' hwait | ended ht' hwait =>
        obtain rfl := Option.some.inj (ht'.symm.trans ht)
        cases hwait

theorem OnCourse.renewed (hr : Roomy grain bound l.options)
    (hc : OnCourse grain bound now l marks) (hcall : l.callingSince .ticker = some since)
    (hx : since ≤ x) (hle : x ≤ now)
    (hs : l.step now (.answer .ticker (.refresh (.ok ())) draw) = some (l', fx)) :
    OnCourse grain bound now l' (x :: marks) := by
  obtain ⟨held, healthy, inUse, ⟨x₀, older, t, rfl, hx₀, ht, ha⟩, within⟩ := hc
  obtain ⟨-, hh⟩ := heard_of_answer (show l.answer now .ticker (.refresh (.ok ())) draw = _ from hs)
  cases hh with
  | @ticked t' _ ht' =>
    obtain rfl := Option.some.inj (ht'.symm.trans ht)
    rw [callingSince_ticker, ht, Option.bind_some] at hcall
    cases ha with
    | resting => cases hcall
    | @calling due renewed since' hline hxs hsince hnow hroom hdue =>
      cases hcall
      have hnext : x < x₀ + l.options.lease.nanos :=
        Nat.lt_of_le_of_lt (Nat.le_trans hle hnow) hroom
      refine ⟨held, rfl, inUse, ⟨x, x₀ :: older, _, rfl, hle, rfl, ?_⟩, ?_⟩
      · refine .resting (line_leave hline) (hr.answered_in_time hx hnow (Nat.le_trans hdue ?_))
        omega
      · exact .cons_cons ⟨Nat.le_trans hxs hx, hnext⟩ within

/-! ## Whole tenures -/

theorem Tenure.onCourse (ten : Tenure grain bound l now marks)
    (hr : Roomy grain bound l.options) : OnCourse grain bound now l marks := by
  induction ten with
  | granted run _ _ hnow hx hle hs hfree => exact hr.granted run hnow hx hle hs hfree
  | passed _ hle hticks hcalls ih => exact (ih hr).passed hle hticks hcalls
  | ticked _ he hs ih =>
    rw [(stepped_of_step hs).options] at hr
    exact (ih hr).ticked he hs
  | renewed _ hcall hx hle hs ih =>
    rw [(stepped_of_step hs).options] at hr
    exact (ih hr).renewed hr hcall hx hle hs

/-- The lease that began with the latest effect is not over. -/
theorem OnCourse.covered (hc : OnCourse grain bound now l marks) :
    ∃ x older, marks = x :: older ∧ x ≤ now ∧ now < x + l.options.lease.nanos := by
  obtain ⟨x, older, t, rfl, hx, -, ha⟩ := hc.ahead
  refine ⟨x, older, rfl, hx, ?_⟩
  cases ha with
  | resting _ hroom =>
    exact Nat.lt_of_le_of_lt (Nat.le_trans (Nat.le_max_left ..) (Nat.le_add_right ..)) hroom
  | calling _ _ _ hnow hroom => exact Nat.lt_of_le_of_lt hnow hroom

/-- The loop goes on: a tick that is due sends its refresh out, and an answer to the refresh that
is out is taken. -/
theorem OnCourse.goes_on (hc : OnCourse grain bound now l marks) :
    (∃ t, l.ticker = some t ∧ t.stage = .resting ∧
      (t.due ≤ now → ∃ l', l.step now .tick = some (l', [.start .ticker .refresh]))) ∨
    ∃ since, l.callingSince .ticker = some since ∧ now ≤ since + bound.nanos ∧
      ∀ draw, ∃ l' fx, l.step now (.answer .ticker (.refresh (.ok ())) draw) = some (l', fx) := by
  obtain ⟨x, older, t, rfl, -, ht, ha⟩ := hc.ahead
  cases ha with
  | resting hfree =>
    refine .inl ⟨_, ht, rfl, fun hdue => ?_⟩
    have hinUse : ¬(l.dropped ∧ l.closer = none) := by simp [hc.inUse]
    obtain ⟨l', fx, hs⟩ : ∃ l' fx, l.step now .tick = some (l', fx) :=
      ⟨_, _, (Arrival.tick ht rfl hdue hinUse).step_eq⟩
    obtain rfl := (called_of_free hfree hc.held hc.inUse hs).effects
    exact ⟨l', hs⟩
  | @calling due renewed since _ _ _ hnow =>
    have hcalling : l.callingSince .ticker = some since := by
      rw [callingSince_ticker, ht]
      rfl
    refine .inr ⟨since, hcalling, hnow, fun draw => ?_⟩
    exact exists_answer (a := .refresh (.ok ())) (by simp [hcalling]) rfl draw

/-- **The cadence outruns the lease.** Let the lease be longer than an interval and two calls, all
of them whole grains of the clock on which ticks are taken. However long each call takes within its
bound, and whenever it takes effect while it is out, the effects of the grant and of the refreshes
follow each other within less than a lease; the locker is held and healthy, and less than a lease
has passed since the latest effect. The loop never ends, nor waits for anything but its next tick or
an answer. -/
theorem Tenure.within_lease (ten : Tenure grain bound l now marks) (hg : 0 < grain)
    (hi : grain ∣ l.options.interval.nanos) (hb : grain ∣ bound.nanos)
    (hl : grain ∣ l.options.lease.nanos)
    (hlt : l.options.interval.nanos + 2 * bound.nanos < l.options.lease.nanos) :
    WithinLease l.options.lease marks ∧
    (∃ x older, marks = x :: older ∧ x ≤ now ∧ now < x + l.options.lease.nanos) ∧
    l.phase = .held ∧ l.health = .healthy ∧
    ((∃ t, l.ticker = some t ∧ t.stage = .resting ∧
        (t.due ≤ now → ∃ l', l.step now .tick = some (l', [.start .ticker .refresh]))) ∨
      ∃ since, l.callingSince .ticker = some since ∧ now ≤ since + bound.nanos ∧
        ∀ draw, ∃ l' fx,
          l.step now (.answer .ticker (.refresh (.ok ())) draw) = some (l', fx)) := by
  have hc := ten.onCourse (roomy_of_dvd hg hi hb hl hlt)
  exact ⟨hc.within, hc.covered, hc.held, hc.healthy, hc.goes_on⟩

/-- A lease of ten seconds, an interval of one. -/
def everySecond : Options := { owner := "a", renewal := some (.ofSecs 1) }

/-- A locker that is held, with its loop and who is in line. -/
def tended (t : Ticker) (line : List Party) : Locker :=
  { options := everySecond, phase := .held, health := .healthy, guard := ⟨line⟩, ticker := some t }

/-- A tick is taken. -/
theorem Tenure.tick_tended {due renewed : Nat}
    (ten : Tenure grain bound (tended ⟨due, renewed, .resting⟩ []) now marks) (hle : now ≤ til)
    (hdue : due ≤ til) (htil : til ≤ max now (roundUp grain due)) :
    Tenure grain bound
      (tended ⟨Ticker.nextDue everySecond.interval due til, renewed, .calling til⟩ [.ticker]) til
      marks := by
  refine .ticked (ten.passed hle (fun due' h => ?_) nofun) (.inl rfl)
    (show _ = some (_, [.start .ticker .refresh]) from ?_)
  · cases List.mem_singleton.1 h
    exact htil
  · simp [step, tended, hdue, tick, queue, proceed, Guard.join, Guard.holder, enterTicker]

/-- Its refresh takes effect at `x`, and is answered. -/
theorem Tenure.renew_tended {due renewed : Nat}
    (ten : Tenure grain bound (tended ⟨due, renewed, .calling since⟩ [.ticker]) now marks)
    (hle : now ≤ til) (htil : til ≤ since + bound.nanos) (hx : since ≤ x) (hxt : x ≤ til) :
    Tenure grain bound (tended ⟨due, til, .resting⟩ []) til (x :: marks) := by
  refine .renewed (ten.passed hle nofun fun since' h => ?_) rfl hx hxt
    (show step til _ (.answer .ticker (.refresh (.ok ())) 0) = some (_, []) from rfl)
  cases h
  exact htil

/-- Calls take up to four seconds. The attempt takes effect at once and is answered three seconds
later. The first refresh takes effect at its start. The tick that fell due in the meantime runs
late, and its refresh takes effect only at its end, eight seconds after the one before. Later ticks
are back on the grid. -/
theorem within_lease_overrun : ∃ l,
    Tenure Duration.perMilli (.ofSecs 4) l 13000000000 [12500000000, 12000000000, 4000000000, 0] ∧
    WithinLease l.options.lease [12500000000, 12000000000, 4000000000, 0] ∧
    l.phase = .held ∧ l.callingSince .ticker = some 13000000000 := by
  have made : Run { options := everySecond } [] := .made (make_eq_ok_iff.2 ⟨rfl, rfl⟩)
  have asked : Run _ _ := made.replay
    (Option.some_get (x := replay ({ options := everySecond }, []) [(0, .call 0 .lock)]) rfl).symm
  have taken : Tenure Duration.perMilli (.ofSecs 4) (tended ⟨4000000000, 3000000000, .resting⟩ [])
      3000000000 [0] :=
    .granted asked (by decide) (show callingSince _ (.caller 0) = some 0 from rfl) (by decide)
      (Nat.le_refl 0) (by decide)
      (show step _ _ (.answer (.caller 0) (.acquire (.ok .granted)) 0) =
        some (_, [.returned 0 (.ok .done)]) from rfl) rfl
  have called : Tenure _ _ _ 4000000000 [0] :=
    taken.tick_tended (by decide) (by decide) (by decide)
  have first : Tenure _ _ _ 8000000000 [4000000000, 0] :=
    called.renew_tended (by decide) (by decide) (Nat.le_refl _) (by decide)
  have second : Tenure _ _ _ 12000000000 [12000000000, 4000000000, 0] :=
    (first.tick_tended (Nat.le_refl _) (by decide) (by decide)).renew_tended
      (by decide) (by decide) (by decide) (Nat.le_refl _)
  have third : Tenure _ _ _ 12500000000 [12500000000, 12000000000, 4000000000, 0] :=
    (second.tick_tended (Nat.le_refl _) (by decide) (by decide)).renew_tended
      (by decide) (by decide) (by decide) (Nat.le_refl _)
  have last : Tenure _ _ _ 13000000000 _ := third.tick_tended (by decide) (by decide) (by decide)
  obtain ⟨within, -, held, -⟩ := last.within_lease (by decide) (by decide) (by decide) (by decide)
    (by decide)
  exact ⟨_, last, within, held, rfl⟩

end Locker

end LeaseLock
