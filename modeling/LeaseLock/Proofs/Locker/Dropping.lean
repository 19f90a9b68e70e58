import LeaseLock.Proofs.Locker.Line

/-!
# How a dropped locker gives its record back

**Deserted lockers** (`Deserted`). The last handle is gone, and nobody calls any more. What moves is
the renewal loop and the errand.

**The errand** (`Errand`). If the guard was free at the drop, the locker is released on the spot and
the errand has only to send the release. Otherwise a tick has the guard, and the errand stands
behind it. A tick that falls due later stands behind the errand, which takes the loop away.

**Poised ticks** (`isPoised`). When the handle goes, a tick may have been given the guard and not
have asked the service yet: it stood behind a call that has just ended or been cut off. The errand
cannot tell it from a tick that has asked. It waits for it all the same, and that tick still makes
its refresh. No other one does.

**Afterwards** (`Aftermath`). Time passes only when the errand has set out, and a refresh that is
out ends later than the drop. Otherwise the next tick might come to the line before the errand.

**What comes next** (`GoesOn`). As long as no release has gone out, either a tick is asking the
service, or something is due at once that brings the release nearer. So no errand is forgotten.

Main result: `Run.drop_rules`. It is by induction over what follows the drop; the invariant counts
the releases and the refreshes that went out (`Errand.step`, `Abandoned.step`), and the rules are
read from it (`Errand.givenBack`).
-/

namespace LeaseLock.Locker

variable {l l₀ l₁ l' : Locker} {h h₁ newer : History} {now t : Instant} {e : Event}
  {fx : List Effect} {p : Party} {a : Answer} {op : Op} {w r f : Nat}

/-! ## Calls that go out -/

/-- A call for this operation goes out. -/
def Effect.sends (op : Op) : Effect → Bool
  | .start _ op' => op' = op
  | _ => false

/-- How many calls for this operation go out in one step. -/
def sending (op : Op) (fx : List Effect) : Nat := fx.countP (Effect.sends op)

/-- How many calls for this operation went out. -/
def sent (op : Op) : History → Nat
  | [] => 0
  | x :: h => sent op h + sending op x.effects

/-- The step ends a tick's call to the service. -/
def Event.endsTick : Event → Bool
  | .answer .ticker _ _ | .expire .ticker => true
  | _ => false

/-! ## Deserted lockers -/

/-- The last handle is gone, and no call is under way. -/
structure Deserted (l : Locker) : Prop where
  dropped : l.dropped = true
  callers : ∀ n, l.caller? n = none

theorem Deserted.party (hl : Deserted l) (hs : Locker.step now l e = some (l', fx)) (n : Nat) :
    e.party? ≠ some (.caller n) := by
  have idle : l.callingSince (.caller n) = none := by
    rw [callingSince_caller, hl.callers]
    rfl
  intro hp
  cases stepped_of_step hs with
  | joined ha | turned ha =>
    cases ha.party.symm.trans hp
    cases ha with
    | call hd => cases hl.dropped.symm.trans hd
    | wake hc => cases (hl.callers n).symm.trans hc
  | resumed _ t =>
    cases hp
    obtain ⟨c, hc⟩ := t.has_caller
    cases (hl.callers n).symm.trans hc
  | answered hout | expired hout | cut hout =>
    cases hp
    exact hout idle
  | cancelled =>
    cases hp
    simp [Locker.step, Locker.cancel, hl.callers] at hs
  | lapsed | dropped | sent => cases hp

theorem Deserted.step (hl : Deserted l) (hs : Locker.step now l e = some (l', fx)) :
    Deserted l' where
  dropped := (stepped_of_step hs).dropped_of_dropped hl.dropped
  callers n := ((stepped_of_step hs).caller?_of_ne (hl.party hs n)).trans (hl.callers n)

theorem Deserted.arrival (hl : Deserted l) (ha : Arrival l now e p l₀) :
    Deserted (l₀.joined p) := by
  cases ha with
  | call hd => cases hl.dropped.symm.trans hd
  | wake hc => cases (hl.callers _).symm.trans hc
  | tick | close => exact ⟨hl.dropped, hl.callers⟩

/-! ## The errand -/

/-- The tick that the errand waits for, by its stage, and the refreshes that have gone out. -/
inductive Asking (w : Nat) : Ticker.Stage → Nat → Prop
  | poised : 0 < w → Asking w .waiting 0
  | asked {since : Instant} {f : Nat} : f ≤ w → Asking w (.calling since) f

/-- A tick has the guard, and the errand stands behind it, or will when it has set out. -/
inductive Behind (l : Locker) : Prop
  | blocked : l.closer = some .blocked → l.guard.line = [.ticker] → Behind l
  | waiting : l.closer = some .waiting → l.guard.line = [.ticker, .closer] → Behind l

/-- How far the errand of a locker has come that was held, with the numbers of releases and of
refreshes that have gone out since the drop. At most `w` refreshes may. -/
inductive Errand (w : Nat) (l : Locker) : Nat → Nat → Prop
  | armed : l.phase = .released → l.closer = some .armed → Errand w l 0 0
  /-- It waits for a tick that has the guard. -/
  | behind {tk : Ticker} {f : Nat} : l.phase = .held → Behind l → l.ticker = some tk →
      Asking w tk.stage f → Errand w l 0 f
  /-- It has the guard. -/
  | next {f : Nat} : l.phase = .held → l.closer = some .waiting → l.guard.holder = some .closer →
      f ≤ w → Errand w l 0 f
  /-- The release has gone out. -/
  | done {f : Nat} : l.phase = .released →
      l.closer = none ∨ (∃ since, l.closer = some (.calling since)) → l.ticker = none → f ≤ w →
      Errand w l 1 f

theorem Asking.le {stage : Ticker.Stage} (ha : Asking w stage f) : f ≤ w := by
  cases ha with
  | poised => exact Nat.zero_le _
  | asked hf => exact hf

theorem Behind.holder (hb : Behind l) : l.guard.holder = some .ticker := by
  cases hb with
  | blocked _ hline | waiting _ hline => simp [Guard.holder, hline]

theorem Behind.closer (hb : Behind l) : l.closer = some .blocked ∨ l.closer = some .waiting := by
  cases hb with
  | blocked hc => exact .inl hc
  | waiting hc => exact .inr hc

theorem Behind.congr (hb : Behind l) (hc : l'.closer = l.closer) (hg : l'.guard = l.guard) :
    Behind l' := by
  cases hb with
  | blocked hc' hline => exact .blocked (hc.trans hc') (hg ▸ hline)
  | waiting hc' hline => exact .waiting (hc.trans hc') (hg ▸ hline)

theorem Errand.bounds (he : Errand w l r f) : r ≤ 1 ∧ f ≤ w := by
  cases he with
  | armed => exact ⟨Nat.zero_le _, Nat.zero_le _⟩
  | behind _ _ _ hask => exact ⟨Nat.zero_le _, hask.le⟩
  | next _ _ _ hf => exact ⟨Nat.zero_le _, hf⟩
  | done _ _ _ hf => exact ⟨Nat.le_refl _, hf⟩

theorem Errand.unreleased (he : Errand w l r f) (hp : l.phase ≠ .released) : r = 0 := by
  cases he with
  | armed | behind | next => rfl
  | done hp' => exact absurd hp' hp

/-- Who comes to the line: a tick behind the errand, or the errand behind a tick. -/
theorem Errand.arrival (he : Errand w l r f) (hd : Deserted l) (ha : Arrival l now e p l₀) :
    Errand w (l₀.joined p) r f := by
  cases ha with
  | call hd' => cases hd.dropped.symm.trans hd'
  | wake hc => cases (hd.callers _).symm.trans hc
  | @tick tk ht hrest =>
    cases he with
    | armed hp hc => exact .armed hp hc
    | behind _ _ ht' hask =>
      cases ht.symm.trans ht'
      rw [hrest] at hask
      cases hask
    | next hp hc hh hf => exact .next hp hc (holder_join hh _) hf
    | done _ _ ht' => cases ht'.symm.trans ht
  | close hc =>
    cases he with
    | armed _ hc' | next _ hc' => cases hc.symm.trans hc'
    | behind hp hplace ht hask =>
      cases hplace with
      | blocked _ hline =>
        refine .behind hp (.waiting rfl ?_) ht hask
        show l.guard.line ++ [.closer] = _
        rw [hline]
        rfl
      | waiting hc' => cases hc.symm.trans hc'
    | done _ hc' =>
      rcases hc' with hc' | ⟨since, hc'⟩ <;> cases hc.symm.trans hc'

/-- Who gets the guard: the tick before the errand asks the service, and the errand sends the
release. -/
theorem Errand.turn (he : Errand w l r f) (hd : Deserted l) (hh : l.guard.holder = some p)
    (t : Turn l now p l' fx) :
    Errand w l' (r + sending .release fx) (f + sending .refresh fx) := by
  cases he with
  | armed hp hc =>
    cases t with
    | served hc' | surrendered hc' | attempted hc' | refreshed hc' | unlocked hc' =>
      cases (hd.callers _).symm.trans hc'
    | ticked _ _ hp' => cases hp.symm.trans hp'
    | ended => exact .armed hp hc
    | returnedBack hc' | closed hc' => cases hc.symm.trans hc'
  | @behind tk f hp hplace htk hask =>
    cases hplace.holder.symm.trans hh
    cases t with
    | ticked htk' hwait =>
      cases htk.symm.trans htk'
      rw [hwait] at hask
      cases hask with
      | poised hw => exact .behind hp (hplace.congr rfl rfl) rfl (.asked hw)
    | ended _ _ hp' => exact absurd hp hp'
  | next hp hc hfirst hf =>
    cases hfirst.symm.trans hh
    cases t with
    -- it leaves the line with the release, and takes the loop along
    | returnedBack => exact .done rfl (.inr ⟨now, rfl⟩) rfl hf
    | closed _ hp' => exact absurd hp hp'
  | done hp hc ht hf =>
    cases t with
    | served hc' | surrendered hc' | attempted hc' | refreshed hc' | unlocked hc' =>
      cases (hd.callers _).symm.trans hc'
    | ticked ht' | ended ht' => cases ht.symm.trans ht'
    | returnedBack hc' | closed hc' =>
      rcases hc with hc | ⟨since, hc⟩ <;> cases hc.symm.trans hc'

/-- While a tick asks, an errand that has set out stands behind it. -/
theorem Errand.behind_tick (he : Errand w l r f) (hsd : Sound l)
    (hout : l.callingSince .ticker ≠ none) (hb : l.closer ≠ some .blocked) :
    l.phase = .held ∧ l.closer = some .waiting ∧ l.guard.line = [.ticker, .closer] ∧ r = 0 ∧
      f ≤ w := by
  cases he with
  | armed _ hc => exact absurd ((hsd.errand (.inl hc)).2 .ticker nofun) hout
  | behind hp hplace _ hask =>
    cases hplace with
    | blocked hc => exact absurd hc hb
    | waiting hc hline => exact ⟨hp, hc, hline, rfl, hask.le⟩
  | next _ _ hh => cases (hsd.first .ticker nofun hout).symm.trans hh
  | done _ _ ht =>
    rw [callingSince_ticker, ht] at hout
    exact absurd rfl hout

theorem holder_leave_ticker {g : Guard} (hline : g.line = [.ticker, .closer]) :
    (g.leave .ticker).holder = some .closer := by
  simp [Guard.leave, Guard.holder, hline]

/-- What the service answers: the tick leaves the guard to the errand, or the errand is over. -/
theorem Errand.heard (he : Errand w l r f) (hd : Deserted l) (hsd : Sound l)
    (hout : l.callingSince p ≠ none) (hb : p = .ticker → l.closer ≠ some .blocked)
    (t : Heard l now p a l' fx) : Errand w l' r f ∧ fx = [] := by
  cases t with
  | granted hc | refused hc | napped hc | refreshed hc | released hc =>
    cases (hd.callers _).symm.trans hc
  | ticked =>
    obtain ⟨hp, hc, hline, rfl, hf⟩ := he.behind_tick hsd hout (hb rfl)
    exact ⟨.next hp hc (holder_leave_ticker hline) hf, rfl⟩
  | closed =>
    refine ⟨?_, rfl⟩
    rw [callingSince_closer] at hout
    cases he with
    | armed _ hc | next _ hc =>
      rw [hc] at hout
      exact absurd rfl hout
    | behind _ hplace =>
      rcases hplace.closer with hc | hc <;>
      · rw [hc] at hout
        exact absurd rfl hout
    | done hp _ ht hf => exact .done hp (.inl rfl) ht hf

/-- **A step brings the errand on.** -/
theorem Errand.step (he : Errand w l r f) (hd : Deserted l) (hsd : Sound l)
    (hb : l.closer = some .blocked → e.endsTick = false)
    (hs : Locker.step now l e = some (l', fx)) :
    Errand w l' (r + sending .release fx) (f + sending .refresh fx) := by
  cases stepped_of_step hs with
  | joined ha => exact he.arrival hd ha
  | turned ha hh t => exact (he.arrival hd ha).turn (hd.arrival ha) hh t
  | resumed hh t => exact he.turn hd hh t
  | answered hout t | expired hout _ t =>
    refine (he.heard hd hsd hout ?_ t).elim fun he' hfx => ?_
    · rintro rfl hc
      cases hb hc
    · subst hfx
      exact he'
  | @cut n => exact absurd rfl (hd.party hs n)
  | @cancelled n => exact absurd rfl (hd.party hs n)
  | lapsed ht _ _ hc =>
    -- a loop lapses only where no errand is under way
    cases he with
    | armed _ hc' | next _ hc' => cases hc.symm.trans hc'
    | behind _ hplace => rcases hplace.closer with hc' | hc' <;> cases hc.symm.trans hc'
    | done _ _ ht' => cases ht'.symm.trans ht
  | dropped hd' => cases hd.dropped.symm.trans hd'
  | sent hc =>
    cases he with
    | armed hp => exact .done hp (.inr ⟨now, rfl⟩) rfl (Nat.zero_le w)
    | next _ hc' => cases hc.symm.trans hc'
    | behind _ hplace => rcases hplace.closer with hc' | hc' <;> cases hc.symm.trans hc'
    | done _ hc' => rcases hc' with hc' | ⟨since, hc'⟩ <;> cases hc.symm.trans hc'

/-! ## Lockers that are left alone -/

/-- No errand gives the record back, and no new tick asks the service: of the ticks only one that
has the guard already may still do so. -/
structure Abandoned (w : Nat) (l : Locker) (f : Nat) : Prop where
  closer : l.closer = none
  spent : f ≤ w
  poised : ∀ tk, l.ticker = some tk → tk.stage = .waiting → f < w

theorem Abandoned.turn (hl : Abandoned w l f) (hd : Deserted l) (t : Turn l now p l' fx) :
    Abandoned w l' (f + sending .refresh fx) ∧ sending .release fx = 0 := by
  obtain ⟨closer, spent, poised⟩ := hl
  cases t with
  | served hc | surrendered hc | attempted hc | refreshed hc | unlocked hc =>
    cases (hd.callers _).symm.trans hc
  | ticked ht hwait =>
    refine ⟨⟨closer, poised _ ht hwait, ?_⟩, rfl⟩
    intro tk htk hstage
    cases htk
    cases hstage
  | ended => exact ⟨⟨closer, spent, nofun⟩, rfl⟩
  | returnedBack hc | closed hc => cases closer.symm.trans hc

theorem Abandoned.heard (hl : Abandoned w l f) (hd : Deserted l) (hout : l.callingSince p ≠ none)
    (t : Heard l now p a l' fx) : Abandoned w l' f ∧ fx = [] := by
  obtain ⟨closer, spent, -⟩ := hl
  cases t with
  | granted hc | refused hc | napped hc | refreshed hc | released hc =>
    cases (hd.callers _).symm.trans hc
  | ticked =>
    refine ⟨⟨closer, spent, ?_⟩, rfl⟩
    intro tk htk hstage
    cases hstage.symm.trans (settle_resting htk).2
  | closed =>
    rw [callingSince_closer, closer] at hout
    exact absurd rfl hout

/-- **A step leaves the record alone.** -/
theorem Abandoned.step (hl : Abandoned w l f) (hd : Deserted l)
    (hs : Locker.step now l e = some (l', fx)) :
    Abandoned w l' (f + sending .refresh fx) ∧ sending .release fx = 0 := by
  cases stepped_of_step hs with
  | joined ha | turned ha =>
    cases ha with
    | call hd' => cases hd.dropped.symm.trans hd'
    | wake hc => cases (hd.callers _).symm.trans hc
    | tick _ _ _ hgone => exact absurd ⟨hd.dropped, hl.closer⟩ hgone
    | close hc => cases hl.closer.symm.trans hc
  | resumed _ t => exact hl.turn hd t
  | answered hout t | expired hout _ t =>
    refine (hl.heard hd hout t).elim fun hl' hfx => ?_
    subst hfx
    exact ⟨hl', rfl⟩
  | @cut n => exact absurd rfl (hd.party hs n)
  | @cancelled n => exact absurd rfl (hd.party hs n)
  | lapsed => exact ⟨⟨hl.closer, hl.spent, nofun⟩, rfl⟩
  | dropped hd' => cases hd.dropped.symm.trans hd'
  | sent hc => cases hl.closer.symm.trans hc

/-! ## The drop -/

/-- A tick has been given the guard, and has not asked the service yet. -/
def isPoised (l : Locker) : Bool :=
  l.guard.holder = some .ticker && l.ticker.any fun tk => tk.stage = .waiting

/-- How many refreshes may still go out when the last handle goes. -/
def allowance (l : Locker) : Nat := if l.isPoised then 1 else 0

theorem allowance_pos {tk : Ticker} (hh : l.guard.holder = some .ticker)
    (ht : l.ticker = some tk) (hwait : tk.stage = .waiting) : 0 < l.allowance := by
  simp [allowance, isPoised, hh, ht, hwait]

theorem Run.at_drop {errands : Bool} (run : Run l h)
    (hs : Locker.step t l (.drop errands) = some (l', fx)) :
    l' = l.drop errands ∧ fx = [] ∧ Deserted l' ∧ l.dropped = false ∧ l.closer = none ∧
      (l.guard.line = [] ∨
        l.guard.line = [.ticker] ∧ ∃ tk, l.ticker = some tk ∧ tk.stage ≠ .resting) := by
  cases stepped_of_step hs with
  | joined ha | turned ha => cases ha
  | dropped hd hc =>
    have hnone : l.closer = none := by
      by_contra hne
      cases hd.symm.trans (run.sound.gone hne)
    refine ⟨rfl, rfl, ⟨dropped_drop l errands, ?_⟩, hd, hnone, run.line_unused hd hc⟩
    intro n
    rw [caller?_drop, caller?, hc]
    rfl

/-- A held locker leaves an errand, where one can be sent out. -/
theorem Run.errand_drop (run : Run l h) (hp : l.phase = .held)
    (hs : Locker.step t l (.drop true) = some (l', fx)) : Errand l.allowance l' 0 0 := by
  obtain ⟨rfl, -, -, -, -, hline | ⟨hline, tk, ht, hstage⟩⟩ := run.at_drop hs
  · have hfree : l.guard.isFree = true := by simp [Guard.isFree, hline]
    unfold drop
    rw [if_pos hfree, hp]
    exact .armed rfl rfl
  · have hfree : ¬l.guard.isFree = true := by simp [Guard.isFree, hline]
    have hh : l.guard.holder = some .ticker := by simp [Guard.holder, hline]
    unfold drop
    rw [if_neg hfree]
    refine .behind hp (.blocked rfl hline) ht ?_
    cases hst : tk.stage with
    | resting => exact absurd hst hstage
    | waiting => exact .poised (allowance_pos hh ht hst)
    | calling => exact .asked (Nat.zero_le _)

/-- A locker that is not held, or whose errand cannot be sent out, is left alone. -/
theorem Run.abandoned_drop {errands : Bool} (run : Run l h)
    (hp : errands = false ∨ l.phase ≠ .held)
    (hs : Locker.step t l (.drop errands) = some (l', fx)) : Abandoned l.allowance l' 0 := by
  obtain ⟨rfl, -, -, hd, hcl, hline⟩ := run.at_drop hs
  have unheld : l.phase ≠ .held → l.ticker = none := (run.inTune hd).ticker
  rcases hline with hline | ⟨hline, tk, ht, hstage⟩
  · have hfree : l.guard.isFree = true := by simp [Guard.isFree, hline]
    -- with the guard free no tick is waiting, so what is left of the loop is at rest or gone
    have gone : ∀ {l' : Locker}, l'.closer = none → l'.ticker = none →
        Abandoned l.allowance l' 0 := by
      intro l' hc ht
      refine ⟨hc, Nat.zero_le _, ?_⟩
      intro tk htk
      cases ht.symm.trans htk
    unfold drop
    rw [if_pos hfree]
    cases hph : l.phase with
    | held =>
      obtain rfl := hp.resolve_right (fun hne => hne hph)
      exact gone hcl rfl
    | idle | released =>
      have hnone := unheld (by simp [hph])
      exact gone hcl hnone
  · have hheld : l.phase = .held := by
      by_contra hne
      cases (unheld hne).symm.trans ht
    obtain rfl := hp.resolve_right (fun hne => hne hheld)
    have hfree : ¬l.guard.isFree = true := by simp [Guard.isFree, hline]
    have hh : l.guard.holder = some .ticker := by simp [Guard.holder, hline]
    unfold drop
    rw [if_neg hfree]
    refine ⟨hcl, Nat.zero_le _, ?_⟩
    intro tk' ht' hwait
    exact allowance_pos hh ht' hwait

/-! ## Afterwards -/

/-- What becomes of a locker after its last handle was dropped at `t`, with what has happened since.
The errand sets out before time passes, and a refresh that is out ends later than the drop. -/
inductive Aftermath (t : Instant) (l₁ : Locker) (h₁ : History) : Locker → History → Prop
  | gone : Aftermath t l₁ h₁ l₁ []
  | step {l l' : Locker} {newer : History} {now : Instant} {e : Event} {fx : List Effect} :
      Aftermath t l₁ h₁ l newer → latest (newer ++ h₁) ≤ now →
      (l.closer = some .blocked → now = t) → (e.endsTick = true → t < now) →
      Locker.step now l e = some (l', fx) → Aftermath t l₁ h₁ l' (⟨now, e, fx⟩ :: newer)

/-- **The errand comes on in the aftermath.** -/
theorem Aftermath.errand (run : Run l₁ h₁) (hd : Deserted l₁) (he : Errand w l₁ 0 0)
    (ha : Aftermath t l₁ h₁ l newer) :
    Run l (newer ++ h₁) ∧ Deserted l ∧ Errand w l (sent .release newer) (sent .refresh newer) := by
  induction ha with
  | gone => exact ⟨run, hd, he⟩
  | @step l l' newer now e fx _ hle hb hends hs ih =>
    obtain ⟨run', hd', he'⟩ := ih
    refine ⟨run'.step hle hs, hd'.step hs, he'.step hd' run'.sound ?_ hs⟩
    -- a tick's call ends later than the drop, and by then the errand has set out
    intro hc
    by_contra htick
    exact Nat.lt_irrefl t (hb hc ▸ hends (by simpa using htick))

/-- **A locker that is left alone stays so.** -/
theorem Abandoned.replay {es : List (Instant × Event)} {s : Locker × History}
    (hl : Abandoned w l 0) (hd : Deserted l) (hs : Locker.replay (l, h) es = some s) :
    ∃ newer, s.2 = newer ++ h ∧ sent .release newer = 0 ∧ sent .refresh newer ≤ w := by
  obtain ⟨newer, heq, -, hl', hrel⟩ := replay_induction
    (P := fun l' newer =>
      Deserted l' ∧ Abandoned w l' (sent .refresh newer) ∧ sent .release newer = 0)
    ⟨hd, hl, rfl⟩
    (by
      rintro l₁ l₂ newer now e fx ⟨hd₁, hl₁, hrel⟩ - hst
      obtain ⟨hl₂, hfx⟩ := hl₁.step hd₁ hst
      refine ⟨hd₁.step hst, hl₂, ?_⟩
      show sent .release newer + sending .release fx = 0
      rw [hrel, hfx]) hs
  exact ⟨newer, heq, hrel, hl'.spent⟩

/-! ## What comes next -/

/-- The next thing that a locker does to give its record back, by the numbers of releases and of
refreshes that have gone out. -/
inductive GoesOn (l : Locker) : Nat → Nat → Prop
  /-- A tick that has been given the guard asks the service. -/
  | asks : (0, .resume .ticker) ∈ l.agenda →
      (∀ now, ∃ l', Locker.step now l (.resume .ticker) = some (l', [.start .ticker .refresh])) →
      GoesOn l 0 0
  /-- A tick has asked the service, and the errand waits. -/
  | waits {f : Nat} : l.callingSince .ticker ≠ none → GoesOn l 0 f
  | releases {e : Event} {f : Nat} : l.callingSince .ticker = none → (0, e) ∈ l.agenda →
      (∀ now, ∃ l', Locker.step now l e = some (l', [.start .closer .release])) → GoesOn l 0 f
  | done {f : Nat} : l.phase = .released → GoesOn l 1 f

theorem close_mem_agenda (hc : l.closer = some .armed ∨ l.closer = some .blocked) :
    (0, .close) ∈ l.agenda := by
  unfold agenda closerAgenda
  rcases hc with hc | hc <;> simp [hc]

theorem resume_closer_mem_agenda (hc : l.closer = some .waiting)
    (hh : l.guard.holder = some .closer) : (0, .resume .closer) ∈ l.agenda := by
  unfold agenda closerAgenda
  simp [hc, hh]

theorem resume_ticker_mem_agenda {tk : Ticker} (ht : l.ticker = some tk)
    (hwait : tk.stage = .waiting) (hh : l.guard.holder = some .ticker) :
    (0, .resume .ticker) ∈ l.agenda := by
  unfold agenda tickerAgenda
  simp [ht, hwait, hh]

theorem Errand.goes_on (he : Errand w l r f) (hsd : Sound l) : GoesOn l r f := by
  cases he with
  | armed _ hc =>
    have hstill := (hsd.errand (.inl hc)).2 .ticker (by decide)
    refine .releases hstill (close_mem_agenda (.inl hc)) ?_
    intro now
    refine ⟨(l.sendRelease now).1, ?_⟩
    show l.close now = _
    unfold close
    rw [hc]
    rfl
  | @behind tk _ hp hplace ht hask =>
    have hh := hplace.holder
    obtain ⟨due, renewed, stage⟩ := tk
    cases hask with
    | poised =>
      refine .asks (resume_ticker_mem_agenda ht rfl hh) fun now => ?_
      refine ⟨{ l with ticker := some ⟨due, renewed, .calling now⟩ }, ?_⟩
      simp [Locker.step, proceed, hh, ht, enterTicker, hp]
    | asked =>
      apply GoesOn.waits
      rw [callingSince_ticker, ht]
      exact Option.some_ne_none _
  | next hp hc hh =>
    refine .releases ?_ (resume_closer_mem_agenda hc hh) fun now => ?_
    · by_contra hout
      cases (hsd.first .ticker (by decide) hout).symm.trans hh
    · refine ⟨(l.enterCloser now).1, ?_⟩
      simp [Locker.step, proceed, hh, hc, enterCloser, hp, sendRelease]
  | done hp => exact .done hp

/-- **The errand is not forgotten**: when nothing is left to wait for, the record was given back. -/
theorem GoesOn.complete (hg : GoesOn l r f) (hstill : l.callingSince .ticker = none)
    (hrest : ∀ e, (0, e) ∉ l.agenda) : r = 1 ∧ l.phase = .released := by
  cases hg with
  | asks hmem => exact absurd hmem (hrest _)
  | waits hout => exact absurd hstill hout
  | releases _ hmem => exact absurd hmem (hrest _)
  | done hp => exact ⟨rfl, hp⟩

/-! ## Calls that start -/

/-- What asks the service finds it unasked, and does not end a tick's call. -/
theorem Run.still_of_start (run : Run l h) (hs : Locker.step now l e = some (l', fx))
    (hfx : .start p op ∈ fx) :
    l.Still ∧ l'.Sole p op now ∧ l'.phase = op.during ∧ e.endsTick = false := by
  obtain rfl := (stepped_of_step hs).eq_start hfx
  obtain ⟨hsd, hc⟩ := run.sound.step (stepped_of_step hs)
  cases hc with
  | asks hans hst hso =>
    refine ⟨hst, hso, hsd.phase p op (by simp [hso.1]) hso.2.1, ?_⟩
    by_contra hends
    cases e with
    | answer => cases hans
    | expire q =>
      obtain ⟨_, _, _, -, hout, -⟩ := bound_of_expire hs
      exact hout (hst q)
    | call | resume | cancel | wake | tick | drop | close => exact hends rfl
  | hears _ _ _ _ _ hr | rests _ _ hr => exact absurd hr not_returns_start

theorem sending_pos (hfx : .start p op ∈ fx) : 0 < sending op fx :=
  List.countP_pos_iff.2 ⟨_, hfx, by simp [Effect.sends]⟩

/-- **The release goes out once**, when no tick is asking, and the locker is released then. -/
theorem Errand.release_starts (he : Errand w l r f) (hd : Deserted l) (run : Run l h)
    (hs : Locker.step now l e = some (l', fx)) (hfx : .start p .release ∈ fx) :
    p = .closer ∧ l.callingSince .ticker = none ∧ r = 0 ∧ l'.phase = .released := by
  obtain ⟨hst, hso, hph, hends⟩ := run.still_of_start hs hfx
  have hle := (he.step hd run.sound (fun _ => hends) hs).bounds.1
  have hpos := sending_pos hfx
  refine ⟨?_, hst _, by omega, hph⟩
  cases p with
  | caller n =>
    have hcall := hso.1
    rw [callingSince_caller, (hd.step hs).callers] at hcall
    cases hcall
  | ticker => cases hso.2.1
  | closer => rfl

theorem Errand.refresh_starts (he : Errand w l r f) (hd : Deserted l) (run : Run l h)
    (hs : Locker.step now l e = some (l', fx)) (hfx : .start p .refresh ∈ fx) :
    p = .ticker ∧ r = 0 ∧ f < w := by
  obtain ⟨-, hso, hph, hends⟩ := run.still_of_start hs hfx
  have he' := he.step hd run.sound (fun _ => hends) hs
  have hpos := sending_pos hfx
  have hle := he'.bounds.2
  refine ⟨?_, ?_, by omega⟩
  · cases p with
    | caller n =>
      have hcall := hso.1
      rw [callingSince_caller, (hd.step hs).callers] at hcall
      cases hcall
    | ticker => rfl
    | closer => cases hso.2.1
  · have hzero := he'.unreleased (by simp [hph, Op.during])
    omega

/-- **Then it is the errand's turn**: a tick that ends leaves the guard to it. -/
theorem Errand.tick_ends (he : Errand w l r f) (hsd : Sound l) (hb : l.closer ≠ some .blocked)
    (hends : e.endsTick = true) (hs : Locker.step now l e = some (l', fx)) :
    (0, .resume .closer) ∈ l'.agenda := by
  have turns : ∀ {a fx}, l.callingSince .ticker ≠ none → Heard l now .ticker a l' fx →
      (0, .resume .closer) ∈ l'.agenda := by
    intro a fx hout t
    cases t with
    | ticked =>
      obtain ⟨-, hc, hline, -⟩ := he.behind_tick hsd hout hb
      exact resume_closer_mem_agenda hc (holder_leave_ticker hline)
  cases stepped_of_step hs with
  | @answered p _ _ _ _ hout t | @expired p _ _ _ _ hout _ t =>
    cases p with
    | ticker => exact turns hout t
    | caller | closer => cases hends
  | joined ha | turned ha => cases ha <;> cases hends
  | resumed | cut | cancelled | lapsed | dropped | sent => cases hends

/-! ## The rules -/

/-- How a locker that was held when its last handle went gives its record back. -/
structure GivenBack (l₀ l : Locker) (newer : History) : Prop where
  once : sent .release newer ≤ 1
  /-- No refresh goes out, but that of a tick that was poised. -/
  refreshes : sent .refresh newer ≤ l₀.allowance
  goes_on : GoesOn l (sent .release newer) (sent .refresh newer)
  /-- When nothing is left to wait for, the record was given back. -/
  complete : l.callingSince .ticker = none → (∀ e, (0, e) ∉ l.agenda) →
    sent .release newer = 1 ∧ l.phase = .released
  /-- An errand that found the guard taken can set out at once. -/
  sets_out : l.closer = some .blocked → (0, .close) ∈ l.agenda ∧
    ∀ now, ∃ l', Locker.step now l .close = some (l', [])
  /-- When a tick's call has ended, the release is next. -/
  ends : ∀ now e l' fx, l.closer ≠ some .blocked → e.endsTick = true →
    Locker.step now l e = some (l', fx) → (0, .resume .closer) ∈ l'.agenda
  release : ∀ now e l' fx p, Locker.step now l e = some (l', fx) → .start p .release ∈ fx →
    p = .closer ∧ l.callingSince .ticker = none ∧ sent .release newer = 0 ∧ l'.phase = .released
  refresh : ∀ now e l' fx p, Locker.step now l e = some (l', fx) → .start p .refresh ∈ fx →
    p = .ticker ∧ sent .release newer = 0 ∧ sent .refresh newer < l₀.allowance

theorem Errand.sets_out (he : Errand w l r f) (hc : l.closer = some .blocked) (now : Instant) :
    ∃ l', Locker.step now l .close = some (l', []) := by
  cases he with
  | armed _ hc' | next _ hc' => cases hc.symm.trans hc'
  | behind _ hplace =>
    refine ⟨{ l with closer := some .waiting }.joined .closer, ?_⟩
    rw [(Arrival.close hc).step_eq]
    simp [queue, proceed, joined, holder_join hplace.holder]
  | done _ hc' => rcases hc' with hc' | ⟨since, hc'⟩ <;> cases hc.symm.trans hc'

theorem Errand.givenBack (he : Errand l₀.allowance l (sent .release newer) (sent .refresh newer))
    (hd : Deserted l) (run : Run l h) : GivenBack l₀ l newer where
  once := he.bounds.1
  refreshes := he.bounds.2
  goes_on := he.goes_on run.sound
  complete := (he.goes_on run.sound).complete
  sets_out hc := ⟨close_mem_agenda (.inr hc), he.sets_out hc⟩
  ends _ _ _ _ hb hends := he.tick_ends run.sound hb hends
  release _ _ _ _ _ := he.release_starts hd run
  refresh _ _ _ _ _ := he.refresh_starts hd run

theorem Run.allowance_eq_zero (run : Run l h) (hd : l.dropped = false) (hp : l.phase ≠ .held) :
    l.allowance = 0 := by
  have ht := (run.inTune hd).ticker hp
  simp [allowance, isPoised, ht]

/-- **A dropped locker gives its record back exactly once.** A held locker whose last handle goes
where an errand can be sent out: whatever the service answers and after whatever time, if the
errand sets out before time passes and a tick's call ends later than the drop, one release goes out,
when no tick is asking, and the locker is released then. Whatever it waits for can happen. No
refresh goes out after the drop, but that of a tick that was poised, before the release. Where no
errand can be sent out, and where nothing is held, no release goes out and no other refresh
either. -/
theorem Run.drop_rules {errands : Bool} (run : Run l₀ h) (hle : latest h ≤ t)
    (hs : Locker.step t l₀ (.drop errands) = some (l₁, fx)) :
    (errands = true → l₀.phase = .held → ∀ l newer,
      Aftermath t l₁ (⟨t, .drop errands, fx⟩ :: h) l newer → GivenBack l₀ l newer) ∧
    (errands = false ∨ l₀.phase ≠ .held → ∀ es s,
      Locker.replay (l₁, ⟨t, .drop errands, fx⟩ :: h) es = some s →
      ∃ newer, s.2 = newer ++ ⟨t, .drop errands, fx⟩ :: h ∧ sent .release newer = 0 ∧
        sent .refresh newer ≤ l₀.allowance) ∧
    (l₀.phase ≠ .held → l₀.allowance = 0) := by
  obtain ⟨-, -, hd, huse, -⟩ := run.at_drop hs
  refine ⟨?_, ?_, run.allowance_eq_zero huse⟩
  · rintro rfl hp l newer ha
    obtain ⟨run', hd', he⟩ := ha.errand (run.step hle hs) hd (run.errand_drop hp hs)
    exact he.givenBack hd' run'
  · intro hp es s hrep
    exact (run.abandoned_drop hp hs).replay hd hrep

/-! ## Fixed drops -/

/-- A tick asks the service. -/
def firstTick : List (Instant × Event) :=
  [(0, .call 0 .lock),
    (1, .answer (.caller 0) (.acquire (.ok .granted)) 0),
    (5000000001, .tick)]

/-- The locker that comes out of it. -/
def ticking : Locker where
  options := ownedByA
  phase := .held
  health := .healthy
  guard := ⟨[.ticker]⟩
  ticker := some ⟨10000000001, 1, .calling 5000000001⟩

/-- The tick is cut off at its bound after the last handle went, and the record is given back. -/
theorem drop_rules_firstTick : ∃ h, Run ticking h ∧
    (∃ l newer, Aftermath 5000000002 (ticking.drop true) (⟨5000000002, .drop true, []⟩ :: h) l
      newer ∧ GivenBack ticking l newer ∧ sent .release newer = 1 ∧ l.phase = .released) ∧
    ∃ s, Locker.replay (ticking.drop false, ⟨5000000002, .drop false, []⟩ :: h)
        [(6000000001, .expire .ticker), (10000000001, .tick)] = some s ∧
      ∃ newer, s.2 = newer ++ ⟨5000000002, .drop false, []⟩ :: h ∧ sent .release newer = 0 ∧
        sent .refresh newer ≤ ticking.allowance := by
  have made : Run { options := ownedByA } [] := .made (make_eq_ok_iff.2 ⟨rfl, rfl⟩)
  obtain ⟨h, run, hle⟩ : ∃ h, Run ticking h ∧ latest h = 5000000001 :=
    ⟨_, made.replay (Option.some_get (x := replay ({ options := ownedByA }, []) firstTick)
      rfl).symm, rfl⟩
  have later : latest h ≤ 5000000002 := by
    rw [hle]
    decide
  have given : Locker.step 5000000002 ticking (.drop true) = some (ticking.drop true, []) := rfl
  have left : Locker.step 5000000002 ticking (.drop false) = some (ticking.drop false, []) := rfl
  have out : Aftermath 5000000002 (ticking.drop true) (⟨5000000002, .drop true, []⟩ :: h) _ [] :=
    .gone
  have sets := out.step (e := .close) (Nat.le_refl 5000000002) (fun _ => rfl) nofun rfl
  have cuts := sets.step (e := .expire .ticker) (by decide : (5000000002 : Nat) ≤ 6000000001)
    nofun (fun _ => by decide) rfl
  have sends := cuts.step (e := .resume .closer) (Nat.le_refl 6000000001) nofun nofun rfl
  exact ⟨h, run, ⟨_, _, sends, (run.drop_rules later given).1 rfl rfl _ _ sends, rfl, rfl⟩, _, rfl,
    (run.drop_rules later left).2.1 (.inl rfl)
      [(6000000001, .expire .ticker), (10000000001, .tick)] _ rfl⟩

/-- A caller's refresh ends, and leaves the guard to a tick that has waited behind it. -/
def overtaken : List (Instant × Event) :=
  [(0, .call 0 .lock),
    (1, .answer (.caller 0) (.acquire (.ok .granted)) 0),
    (4900000000, .call 1 .refresh),
    (5000000001, .tick),
    (5100000000, .answer (.caller 1) (.refresh (.ok ())) 0)]

/-- The locker that comes out of it; its tick is poised. -/
def handedOver : Locker where
  options := ownedByA
  phase := .held
  health := .healthy
  guard := ⟨[.ticker]⟩
  ticker := some ⟨10000000001, 1, .waiting⟩

/-- The last handle goes with the caller, and the tick still makes its refresh before the
release. -/
theorem refresh_after_drop : ∃ h l newer, Run handedOver h ∧ latest h = 5100000000 ∧
    handedOver.phase = .held ∧
    Locker.step 5100000000 handedOver (.drop true) = some (handedOver.drop true, []) ∧
    Aftermath 5100000000 (handedOver.drop true) (⟨5100000000, .drop true, []⟩ :: h) l newer ∧
    sent .refresh newer = 1 ∧ sent .release newer = 1 ∧ l.phase = .released := by
  have made : Run { options := ownedByA } [] := .made (make_eq_ok_iff.2 ⟨rfl, rfl⟩)
  obtain ⟨h, run, hle⟩ : ∃ h, Run handedOver h ∧ latest h = 5100000000 :=
    ⟨_, made.replay (Option.some_get (x := replay ({ options := ownedByA }, []) overtaken)
      rfl).symm, rfl⟩
  have out : Aftermath 5100000000 (handedOver.drop true) (⟨5100000000, .drop true, []⟩ :: h) _ [] :=
    .gone
  have sets := out.step (e := .close) (Nat.le_refl 5100000000) (fun _ => rfl) nofun rfl
  have asks := sets.step (e := .resume .ticker) (Nat.le_refl 5100000000) nofun nofun rfl
  have hears := asks.step (e := .answer .ticker (.refresh (.ok ())) 0)
    (by decide : (5100000000 : Nat) ≤ 5200000000) nofun (fun _ => by decide) rfl
  have sends := hears.step (e := .resume .closer) (Nat.le_refl 5200000000) nofun nofun rfl
  exact ⟨h, _, _, run, hle, rfl, rfl, sends, rfl, rfl, rfl⟩

end LeaseLock.Locker
