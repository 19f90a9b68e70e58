import LeaseLock.Proofs.Locker.Waiting

/-!
# Lockers that are answered on the spot

**Lockers at rest** (`AtRest`). Where every call is answered on the spot, nobody has the guard or
waits for the service between two acts, and the renewal loop rests. Renewal goes on only while the
locker is held.

**Steps** (`Swift`). Whoever comes to a locker at rest gets the guard at once.

**What becomes of the renewal.** A step without a call to the service leaves it as it was
(`Steady`), or leaves the lock (`Left`). With a call, it is as the answer says (`Tending`). Main
results: `AtRest.moved` and `AtRest.answered`.
-/

namespace LeaseLock.Locker

variable {l l₀ l₁ l' : Locker} {h : History} {now : Instant} {e : Event} {fx : List Effect}
  {p : Party} {op : Op} {a : Answer} {draw : Nat}

structure AtRest (l : Locker) : Prop where
  free : l.guard.line = []
  still : l.Still
  resting : ∀ t, l.ticker = some t → t.stage = .resting
  gone : l.dropped = true → l.phase = .released
  /-- Renewal is a matter of held locks. -/
  calm : l.dropped = false → l.phase ≠ .held → l.health = .idle ∧ l.ticker = none

/-- The renewal is as it was. -/
structure Steady (l l' : Locker) : Prop where
  phase : l'.phase = l.phase
  health : l'.health = l.health
  ticker : l'.ticker = l.ticker
  dropped : l'.dropped = l.dropped

/-- The lock is given up, and so is the renewal, or the last handle is gone. -/
structure Left (l l' : Locker) : Prop where
  phase : l'.phase = .released
  renewal : l'.health = .idle ∧ l'.ticker = none ∨
    l'.dropped = true ∧ l'.health = l.health ∧ (l'.ticker = l.ticker ∨ l'.ticker = none)

/-- What becomes of the renewal with an answer of the service. -/
inductive Tending (l : Locker) (now : Instant) : Party → Answer → Locker → Prop
  | granted {n : Nat} {l' : Locker} : l.phase = .idle → l'.phase = .held → l'.health = .healthy →
      l'.ticker = some (.start l.options.interval now) → l'.dropped = l.dropped →
      Tending l now (.caller n) (.acquire (.ok .granted)) l'
  | refused {n : Nat} {r : Except LockError Attempt} {l' : Locker} : r ≠ .ok .granted →
      Steady l l' → Tending l now (.caller n) (.acquire r) l'
  | pushed {n : Nat} {r : Except LockError Unit} {l' : Locker} : l.phase = .held → Steady l l' →
      Tending l now (.caller n) (.refresh r) l'
  | ticked {t t' : Ticker} {r : Except LockError Unit} {l' : Locker} : l.phase = .held →
      l.ticker = some t → t.due ≤ now → t'.renewed = t.renewed →
      t'.due = Ticker.nextDue l.options.interval t.due now → l'.phase = .held →
      l'.health = (t'.settle l.options.lease now r).1.getD l.health →
      l'.ticker = (t'.settle l.options.lease now r).2 → l'.dropped = l.dropped →
      Tending l now .ticker (.refresh r) l'
  | left {p : Party} {r : Except LockError Unit} {l' : Locker} : Left l l' →
      Tending l now p (.release r) l'

theorem atRest_make {o : Options} (h : make o = .ok l) : AtRest l := by
  have hst := (sound_make h).2
  obtain ⟨-, rfl⟩ := make_eq_ok_iff.1 h
  exact ⟨rfl, hst, by simp, by simp, fun _ _ => ⟨rfl, rfl⟩⟩

theorem AtRest.not_dropped (hl : AtRest l) (hp : l.phase ≠ .released) : l.dropped ≠ true :=
  fun hd => hp (hl.gone hd)

theorem AtRest.steady (hl : AtRest l) (hs : Steady l l') (hf : l'.guard.line = [])
    (hst : l'.Still) : AtRest l' where
  free := hf
  still := hst
  resting t ht := hl.resting t (hs.ticker ▸ ht)
  gone hd := hs.phase.trans (hl.gone (hs.dropped ▸ hd))
  calm hd hp := by
    rw [hs.health, hs.ticker]
    exact hl.calm (hs.dropped ▸ hd) (hs.phase ▸ hp)

theorem AtRest.left (hl : AtRest l) (hs : Left l l') (hf : l'.guard.line = [])
    (hst : l'.Still) : AtRest l' where
  free := hf
  still := hst
  resting t ht := by
    rcases hs.renewal with ⟨-, hn⟩ | ⟨-, -, hn | hn⟩ <;> rw [hn] at ht
    · cases ht
    · exact hl.resting t ht
    · cases ht
  gone _ := hs.phase
  calm hd _ := by
    rcases hs.renewal with hn | ⟨hd', -⟩
    · exact hn
    · rw [hd'] at hd
      cases hd

/-! ## Steps -/

/-- What a step of a locker at rest can be. -/
inductive Swift (l : Locker) (now : Instant) : Event → Locker → List Effect → Prop
  | turned {e : Event} {p : Party} {l₀ l' : Locker} {fx : List Effect} : Arrival l now e p l₀ →
      Turn (l₀.joined p) now p l' fx → Swift l now e l' fx
  | cancelled {n : Nat} : Swift l now (.cancel n) (l.removeCaller n) []
  | lapsed : l.dropped = true → Swift l now .tick l.stopTicker []
  | dropped {errands : Bool} : l.dropped = false →
      Swift l now (.drop errands) (l.drop errands) []
  | sent : l.closer = some .armed →
      Swift l now .close (l.sendRelease now).1 [.start .closer .release]

theorem Arrival.step_eq (ha : Arrival l now e p l₀) : l.step now e = some (l₀.queue now p) := by
  cases ha with
  | call hd hn => simp [step, hd, hn]
  | @wake n c til hc hs ht =>
    obtain ⟨verb, began, stage⟩ := c
    cases hs
    simp [step, hc, ht]
  | tick ht hs hd hg => simp [step, Locker.tick, ht, hs, hd, hg]
  | close hc => simp [step, Locker.close, hc]

theorem Arrival.proceeds (ha : Arrival l now e p l₀)
    (hh : (l₀.joined p).guard.holder = some p) : ∃ r, (l₀.joined p).proceed now p = some r := by
  unfold proceed
  rw [if_neg (by simp [hh])]
  cases ha with
  | @call n verb _ hn =>
    have hc : ((l.addCaller n ⟨verb, now, .waiting⟩).joined (.caller n)).caller? n =
        some ⟨verb, now, .waiting⟩ := (caller?_addCaller hn _ n).trans (if_pos rfl)
    exact ⟨_, by simp only [hc]; rfl⟩
  | @wake n c til hcl =>
    have hc : ((l.moveCaller n .waiting).joined (.caller n)).caller? n =
        some ⟨c.verb, c.began, .waiting⟩ := caller?_moved hcl .waiting
    exact ⟨_, by simp only [hc]; rfl⟩
  | tick => exact ⟨_, rfl⟩
  | close => exact ⟨_, rfl⟩

theorem Arrival.exists_proceed (ha : Arrival l now e p l₀) (hf : l.guard.line = []) :
    ∃ r, (l₀.joined p).proceed now p = some r := by
  have hg : l₀.guard = l.guard := by cases ha <;> rfl
  apply ha.proceeds
  simp [joined, Guard.join, Guard.holder, hg, hf]

/-- Whoever comes gets its turn, or waits behind another one. -/
theorem Arrival.turned_or_waits (ha : Arrival l now e p l₀)
    (hs : l.step now e = some (l', fx)) :
    Turn (l₀.joined p) now p l' fx ∨
      l' = l₀.joined p ∧ fx = [] ∧ l'.guard.holder ≠ some p := by
  rw [ha.step_eq] at hs
  have hq : ((l₀.joined p).proceed now p).getD (l₀.joined p, []) = (l', fx) := Option.some.inj hs
  by_cases hh : (l₀.joined p).guard.holder = some p
  · obtain ⟨r, hr⟩ := ha.proceeds hh
    rw [hr, Option.getD_some] at hq
    subst hq
    exact .inl (turn_of_proceed hr).2
  · have hr : (l₀.joined p).proceed now p = none := by
      unfold proceed
      rw [if_pos hh]
    rw [hr, Option.getD_none] at hq
    cases hq
    exact .inr ⟨rfl, rfl, hh⟩

theorem Arrival.turn (ha : Arrival l now e p l₀) (hf : l.guard.line = [])
    (hs : l.step now e = some (l', fx)) : Turn (l₀.joined p) now p l' fx := by
  obtain ⟨r, hr⟩ := ha.exists_proceed hf
  have hq : l₀.queue now p = r := by
    show ((l₀.joined p).proceed now p).getD (l₀.joined p, []) = r
    rw [hr]
    rfl
  rw [ha.step_eq, hq] at hs
  obtain rfl := Option.some.inj hs
  exact (turn_of_proceed hr).2

/-- **A step of a locker at rest is one of these**, unless it is an answer. -/
theorem AtRest.swift (hl : AtRest l) (he : e.isAnswer = false)
    (hs : l.step now e = some (l', fx)) : Swift l now e l' fx := by
  cases stepped_of_step hs with
  | joined ha | turned ha => exact .turned ha (ha.turn hl.free hs)
  | resumed hh => simp [Guard.holder, hl.free] at hh
  | answered => cases he
  | expired hp => exact absurd (hl.still _) hp
  | cut hp => exact absurd (hl.still _) hp
  | cancelled => exact .cancelled
  | lapsed _ _ hd => exact .lapsed hd
  | dropped hd => exact .dropped hd
  | sent hc => exact .sent hc

/-! ## Without a call to the service -/

theorem Arrival.steady (ha : Arrival l now e p l₀) (hp : p ≠ .ticker) : Steady l (l₀.joined p) := by
  cases ha with
  | call | wake | close => exact ⟨rfl, rfl, rfl, rfl⟩
  | tick => exact absurd rfl hp

theorem Arrival.line (ha : Arrival l now e p l₀) (hf : l.guard.line = []) :
    (l₀.joined p).guard.line = [p] := by
  have hg : l₀.guard = l.guard := by cases ha <;> rfl
  simp [joined, Guard.join, hg, hf]

theorem line_leave {g : Guard} (h : g.line = [p]) : (g.leave p).line = [] := by
  simp [Guard.leave, h]

theorem AtRest.still_of_returns (run : Run l h) (hl : AtRest l) (he : e.isAnswer = false)
    (hs : l.step now e = some (l', fx)) (hr : Returns fx) : l'.Still := by
  obtain ⟨-, hc⟩ := run.sound.step (stepped_of_step hs)
  cases hc with
  | asks => exact absurd hr not_returns_start
  | hears => cases he
  | drops _ hp => exact absurd (hl.still _) hp
  | rests _ hq => exact fun q => (hq.calling q).trans (hl.still q)

theorem AtRest.turned (run : Run l h) (hl : AtRest l) (ha : Arrival l now e p l₀)
    (t : Turn (l₀.joined p) now p l' fx) (hr : Returns fx) :
    l'.guard.line = [] ∧ (Steady l l' ∨ Left l l') := by
  have line := ha.line hl.free
  cases t with
  | attempted | refreshed | unlocked | ticked | returnedBack => exact absurd hr not_returns_start
  | served =>
    have st := ha.steady (by simp)
    exact ⟨line_leave line,
      .inl ⟨st.phase, st.health, st.ticker, st.dropped⟩⟩
  | surrendered _ _ _ hp =>
    have st := ha.steady (by simp)
    refine ⟨line_leave line, .inr ⟨rfl, ?_⟩⟩
    cases hd : l.dropped with
    | true => exact .inr ⟨st.dropped.trans hd, st.health, .inl st.ticker⟩
    | false =>
      obtain ⟨hh, ht⟩ := hl.calm hd (st.phase ▸ hp)
      exact .inl ⟨st.health.trans hh, st.ticker.trans ht⟩
  | ended _ _ hp =>
    refine ⟨line_leave line, .inr ?_⟩
    cases ha with
    | tick ht =>
      -- only a locker whose last handle is gone renews a lock that is not held
      have hd : l.dropped = true := by
        by_contra hd
        rw [(hl.calm (by simpa using hd) hp).2] at ht
        cases ht
      exact ⟨hl.gone hd, .inr ⟨hd, rfl, .inr rfl⟩⟩
  | closed _ hp =>
    have st := ha.steady (by simp)
    have hd : l.dropped = true := by
      cases ha with
      | close hc => exact run.sound.gone (by simp [hc])
    exact ⟨line_leave line,
      .inr ⟨rfl, .inr ⟨st.dropped.trans hd, st.health, .inl st.ticker⟩⟩⟩

theorem AtRest.drop (hl : AtRest l) (errands : Bool) :
    (l.drop errands).guard.line = [] ∧ Left l (l.drop errands) := by
  have hfree : l.guard.isFree = true := by simp [Guard.isFree, hl.free]
  unfold Locker.drop
  rw [if_pos hfree]
  cases l.phase <;> cases errands <;>
    first
      | exact ⟨hl.free, rfl, .inr ⟨rfl, rfl, .inl rfl⟩⟩
      | exact ⟨by simp [stopTicker, Guard.leave, hl.free], rfl, .inr ⟨rfl, rfl, .inr rfl⟩⟩

/-- **A step without a call to the service** leaves the renewal as it was, or leaves the lock. -/
theorem AtRest.moved (run : Run l h) (hl : AtRest l) (he : e.isAnswer = false)
    (hs : l.step now e = some (l', fx)) (hr : Returns fx) :
    AtRest l' ∧ (Steady l l' ∨ Left l l') := by
  have still := hl.still_of_returns run he hs hr
  have hcases : l'.guard.line = [] ∧ (Steady l l' ∨ Left l l') := by
    cases hl.swift he hs with
    | turned ha t => exact hl.turned run ha t hr
    | cancelled =>
      exact ⟨by simp [removeCaller, Guard.leave, hl.free], .inl ⟨rfl, rfl, rfl, rfl⟩⟩
    | lapsed hd =>
      exact ⟨by simp [stopTicker, Guard.leave, hl.free],
        .inr ⟨hl.gone hd, .inr ⟨hd, rfl, .inr rfl⟩⟩⟩
    | dropped => exact ⟨(hl.drop _).1, .inr (hl.drop _).2⟩
    | sent => exact absurd hr not_returns_start
  obtain ⟨line, hst | hleft⟩ := hcases
  · exact ⟨hl.steady hst line still, .inl hst⟩
  · exact ⟨hl.left hleft line still, .inr hleft⟩

/-! ## With an answer of the service -/

theorem AtRest.turn_answered (run : Run l h) (hl : AtRest l) (ha : Arrival l now e p l₀)
    (t : Turn (l₀.joined p) now p l₁ [.start p op]) (ho : l₁.options = l.options)
    (hop : a.op = op) (hh : Heard l₁ now p a l' fx) :
    l'.guard.line = [] ∧ Tending l now p a l' := by
  have line := ha.line hl.free
  cases t with
  | attempted _ _ _ hp =>
    have st := ha.steady (by simp)
    cases hh with
    | granted =>
      refine ⟨line_leave line, ?_⟩
      exact .granted (st.phase.symm.trans hp) rfl rfl (by rw [← ho]; rfl) st.dropped
    | refused _ _ hr =>
      exact ⟨line_leave line,
        .refused hr ⟨st.phase, st.health, st.ticker, st.dropped⟩⟩
    | napped _ _ hr =>
      exact ⟨line_leave line,
        .refused hr ⟨st.phase, st.health, st.ticker, st.dropped⟩⟩
    | refreshed | released => cases hop
  | refreshed _ _ _ hp =>
    have st := ha.steady (by simp)
    cases hh with
    | refreshed =>
      exact ⟨line_leave line,
        .pushed (st.phase.symm.trans hp) ⟨st.phase, st.health, st.ticker, st.dropped⟩⟩
    | granted | refused | napped | released => cases hop
  | unlocked =>
    cases hh with
    | released =>
      exact ⟨by simp [removeCaller, moveCaller, stopTicker, Guard.leave, line],
        .left ⟨rfl, .inl ⟨rfl, rfl⟩⟩⟩
    | granted | refused | napped | refreshed => cases hop
  | ticked ht _ hp =>
    cases ha with
    | @tick t₀ ht₀ _ hdue =>
      cases hh with
      | ticked ht₁ =>
        cases ht
        cases ht₁
        refine ⟨line_leave line, ?_⟩
        exact @Tending.ticked l now t₀ ⟨_, _, .calling now⟩ _ _ hp ht₀ hdue rfl rfl hp rfl rfl rfl
  | returnedBack =>
    have st := ha.steady (by simp)
    have hd : l.dropped = true := by
      cases ha with
      | close hc => exact run.sound.gone (by simp [hc])
    cases hh with
    | closed =>
      exact ⟨by simp [sendRelease, stopTicker, Guard.leave, line],
        .left ⟨rfl, .inr ⟨st.dropped.trans hd, st.health, .inr rfl⟩⟩⟩

/-- **A call that is answered on the spot** makes of the renewal what the answer says. -/
theorem AtRest.answered (run : Run l h) (hl : AtRest l) (he : e.isAnswer = false)
    (hs : l.step now e = some (l₁, [.start p op]))
    (hans : l₁.answer now p a draw = some (l', fx)) : AtRest l' ∧ Tending l now p a l' := by
  obtain ⟨hsd, hso, -⟩ := run.sole_of_start hs
  obtain ⟨hout, hh⟩ := heard_of_answer hans
  obtain ⟨-, still, -⟩ := hh.ends hsd hout
  have hop : a.op = op := Option.some.inj (hh.opOf.symm.trans hso.2.1)
  have hcases : l'.guard.line = [] ∧ Tending l now p a l' := by
    cases hl.swift he hs with
    | @turned _ q _ _ _ ha t =>
      obtain rfl : p = q := by
        rcases t.effects with hr | ⟨op', hx⟩
        · exact absurd hr not_returns_start
        · simp only [List.cons.injEq, Effect.start.injEq, and_true] at hx
          exact hx.1
      exact hl.turn_answered run ha t (stepped_of_step hs).options hop hh
    | sent hc =>
      have hd := run.sound.gone (by simp [hc])
      have hp := (run.sound.errand (.inl hc)).1
      cases hh with
      | closed =>
        exact ⟨by simp [sendRelease, stopTicker, Guard.leave, hl.free],
          .left ⟨hp, .inr ⟨hd, rfl, .inr rfl⟩⟩⟩
  obtain ⟨line, ht⟩ := hcases
  refine ⟨?_, ht⟩
  cases ht with
  | refused _ hst | pushed _ hst => exact hl.steady hst line still
  | left hleft => exact hl.left hleft line still
  | granted hi hp _ htk hd =>
    have hd' : l'.dropped ≠ true := hd ▸ hl.not_dropped (by simp [hi])
    refine ⟨line, still, fun t ht => ?_, fun hd => absurd hd hd', fun _ hn => absurd hp hn⟩
    rw [htk] at ht
    cases ht
    rfl
  | ticked hph _ _ _ _ hp _ htk hd =>
    have hd' : l'.dropped ≠ true := hd ▸ hl.not_dropped (by simp [hph])
    exact ⟨line, still, fun t ht => (settle_resting (htk ▸ ht)).2, fun hd => absurd hd hd',
      fun _ hn => absurd hp hn⟩

end LeaseLock.Locker
