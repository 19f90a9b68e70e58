import LeaseLock.Proofs.Locker.Phases

/-!
# The health goes with the phase

**Loops** (`Entry.starts`, `Entry.stops`). A renewal loop is started by the grant of the lock, and
stopped by the call to unlock that gives the lock back. A loop may also end by itself; it counts as
running for as long as nobody has stopped it.

**What a step makes of the renewal** (`Tends`). The one inversion lemma of this module, for lockers
that are still in use. The errand of a dropped locker and the drop itself are left out of it: they
may leave a health behind that belongs to no lock.

**In tune** (`InTune`). The health is idle if and only if nothing is held; one loop was started and
not stopped if the lock is held, and none otherwise. A tick that comes out publishes a health that
is not idle, so what carries the induction is that a tick is out only while the locker is held.

**Silence** (`Silenced`). Once a call to unlock has sent its release out, the loop is gone and makes
no further step. This outlives the last handle.

Main result: `Run.health_agrees`.
-/

namespace LeaseLock.Locker

variable {l l₀ l' : Locker} {h : History} {now : Instant} {e : Event} {fx : List Effect}
  {p : Party} {a : Answer} {x : Entry}

/-! ## Loops that are started and stopped -/

/-- The lock is granted, and a renewal loop is started. -/
def Entry.starts (x : Entry) : Bool :=
  match x.event with
  | .answer (.caller _) (.acquire (.ok .granted)) _ => true
  | _ => false

/-- A call to unlock sends its release out. -/
def Effect.unlocks : Effect → Bool
  | .start (.caller _) .release => true
  | _ => false

/-- A call to unlock stops the renewal loop, and sends its release out. -/
def Entry.stops (x : Entry) : Bool := x.effects.any Effect.unlocks

/-- How many renewal loops were started. -/
def started (h : History) : Nat := h.countP Entry.starts

/-- How many renewal loops were stopped. -/
def stopped (h : History) : Nat := h.countP Entry.stops

/-- How many loops a held lock needs. -/
def needed (s : Phase) : Nat := if s = .held then 1 else 0

theorem started_cons (x : Entry) (h : History) :
    started (x :: h) = started h + if x.starts then 1 else 0 := List.countP_cons

theorem stopped_cons (x : Entry) (h : History) :
    stopped (x :: h) = stopped h + if x.stops then 1 else 0 := List.countP_cons

theorem starts_of_not_isAnswer (he : e.isAnswer = false) :
    Entry.starts ⟨now, e, fx⟩ = false := by
  cases e <;> first | rfl | cases he

theorem starts_of_ne {draw : Nat} (ha : a ≠ .acquire (.ok .granted)) :
    Entry.starts ⟨now, .answer p a draw, fx⟩ = false := by
  unfold Entry.starts
  split
  next heq =>
    cases heq
    exact absurd rfl ha
  · rfl

theorem unlocks_of_returns (hr : Returns fx) : fx.any Effect.unlocks = false := by
  rw [List.any_eq_false]
  intro y hy
  obtain ⟨n, r, rfl⟩ := hr y hy
  exact Bool.false_ne_true

/-! ## What a step makes of the renewal -/

/-- What a step of a locker in use makes of the phase, the health and the loop. -/
inductive Tends (l : Locker) (x : Entry) (l' : Locker) : Prop
  | begins : x.starts = true → x.stops = false → l.phase = .idle → l'.phase = .held →
      l'.health = .healthy → l'.ticker = some (.start l.options.interval x.time) → Tends l x l'
  | ends : x.starts = false → x.stops = true → l.phase = .held → l'.phase = .released →
      l'.health = .idle → l'.ticker = none → Tends l x l'
  /-- A locker that is not held is given up. -/
  | surrenders : x.starts = false → x.stops = false → l.phase ≠ .held → l'.phase = .released →
      l'.health = l.health → (l.ticker = none → l'.ticker = none) → Tends l x l'
  /-- A tick has come out, and its outcome is published. -/
  | publishes : x.starts = false → x.stops = false → l.phase = .held → l'.phase = .held →
      (l.health ≠ .idle → l'.health ≠ .idle) → l.ticker ≠ none → Tends l x l'
  | keeps : x.starts = false → x.stops = false → l'.phase = l.phase → l'.health = l.health →
      (l.ticker = none → l'.ticker = none) → Tends l x l'

theorem Tends.after (t : Tends l₀ x l') (hs : x.starts = false) (hp : l₀.phase = l.phase)
    (hh : l₀.health = l.health) (ht : l₀.ticker = none ↔ l.ticker = none) : Tends l x l' := by
  cases t with
  | begins hs' => cases hs.symm.trans hs'
  | ends _ hx hheld hp' hh' ht' => exact .ends hs hx (hp.symm.trans hheld) hp' hh' ht'
  | surrenders _ hx hne hp' hh' ht' =>
    rw [hp] at hne
    exact .surrenders hs hx hne hp' (hh'.trans hh) fun hn => ht' (ht.2 hn)
  | publishes _ hx hheld hp' hh' hn =>
    rw [hh] at hh'
    exact .publishes hs hx (hp.symm.trans hheld) hp' hh' (mt ht.2 hn)
  | keeps _ hx hp' hh' ht' =>
    exact .keeps hs hx (hp'.trans hp) (hh'.trans hh) fun hn => ht' (ht.2 hn)

theorem Turn.tends (t : Turn l now p l' fx) (hp : p ≠ .closer) (he : e.isAnswer = false) :
    Tends l ⟨now, e, fx⟩ l' := by
  have hs : Entry.starts ⟨now, e, fx⟩ = false := starts_of_not_isAnswer he
  cases t with
  | served | attempted | refreshed => exact .keeps hs rfl rfl rfl id
  | surrendered _ _ _ hne => exact .surrenders hs rfl hne rfl rfl id
  | unlocked _ _ _ hh => exact .ends hs rfl hh rfl rfl rfl
  | ticked ht => exact .keeps hs rfl rfl rfl fun hn => absurd hn (by simp [ht])
  | ended => exact .keeps hs rfl rfl rfl fun _ => rfl
  | returnedBack | closed => exact absurd rfl hp

theorem settle_ne_idle (t : Ticker) (lease : Duration) (r : Except LockError Unit)
    {s : Health} (hs : s ≠ .idle) : (t.settle lease now r).1.getD s ≠ .idle := by
  unfold Ticker.settle
  split
  · exact Health.noConfusion
  · exact hs
  · exact Health.noConfusion
  · split <;> exact Health.noConfusion

theorem tends_answerTicker {t : Ticker} {r : Except LockError Unit} (ht : l.ticker = some t)
    (hph : l.phase = .held) (hs : x.starts = false) (hx : x.stops = false) :
    Tends l x (l.answerTicker now t r) := by
  refine .publishes hs hx hph hph ?_ (by simp [ht])
  intro hne
  exact settle_ne_idle t l.options.lease r hne

theorem Heard.tends (hl : Sound l) (hout : l.callingSince p ≠ none) (t : Heard l now p a l' fx)
    (htime : x.time = now)
    (hs : a ≠ .acquire (.ok .granted) → x.starts = false)
    (hg : ∀ n, p = .caller n → a = .acquire (.ok .granted) → x.starts = true)
    (hx : x.stops = false) : Tends l x l' := by
  have hph := hl.phase p a.op hout t.opOf
  cases t with
  | granted => exact .begins (hg _ rfl rfl) hx hph rfl rfl (by rw [htime]; rfl)
  | refused _ _ hr | napped _ _ hr =>
    exact .keeps (hs (mt Answer.acquire.inj hr)) hx rfl rfl id
  | refreshed | released | closed => exact .keeps (hs nofun) hx rfl rfl id
  | ticked ht => exact tends_answerTicker ht hph (hs nofun) hx

theorem dropped_drop (l : Locker) (errands : Bool) : (l.drop errands).dropped = true := by
  unfold drop
  split
  · cases l.phase <;> cases errands <;> rfl
  · cases errands <;> rfl

theorem Run.in_use (run : Run l h) (hs : Locker.step now l e = some (l', fx))
    (hd : l'.dropped = false) : l.dropped = false ∧ l.closer = none := by
  have hd₀ : l.dropped = false := by
    by_contra hne
    rw [Bool.not_eq_false] at hne
    rw [(stepped_of_step hs).dropped_of_dropped hne] at hd
    cases hd
  refine ⟨hd₀, ?_⟩
  by_contra hne
  rw [run.sound.gone hne] at hd₀
  cases hd₀

/-- **What a step makes of the renewal** of a locker that is in use after it. -/
theorem Run.tends (run : Run l h) (hs : Locker.step now l e = some (l', fx))
    (hd : l'.dropped = false) : Tends l ⟨now, e, fx⟩ l' := by
  obtain ⟨hd₀, hcl⟩ := run.in_use hs hd
  cases stepped_of_step hs with
  | joined ha =>
    obtain ⟨hp, hh, ht⟩ := ha.renewal
    exact .keeps (starts_of_not_isAnswer (isAnswer_of_arrival ha)) rfl hp hh ht.2
  | @turned _ p _ _ _ ha _ t =>
    have he := isAnswer_of_arrival ha
    obtain ⟨hp, hh, ht⟩ := ha.renewal
    have hne : p ≠ .closer := by
      rintro rfl
      cases ha with
      | close hc => cases hcl.symm.trans hc
    exact (t.tends hne he).after (starts_of_not_isAnswer he) hp hh ht
  | @resumed p _ _ _ t =>
    have hne : p ≠ .closer := by
      rintro rfl
      cases t with
      | returnedBack hc | closed hc => cases hcl.symm.trans hc
    exact t.tends hne rfl
  | answered hout t =>
    refine t.tends run.sound hout rfl starts_of_ne ?_ (unlocks_of_returns t.returns)
    rintro n rfl rfl
    rfl
  | @expired p limit op _ fx hout _ t =>
    have hfail : Answer.failed (.timedOut limit) op ≠ .acquire (.ok .granted) := by
      cases op <;> nofun
    refine t.tends run.sound hout rfl (fun _ => rfl) (fun _ _ heq => absurd heq hfail) ?_
    show fx.any Effect.unlocks = false
    exact unlocks_of_returns t.returns
  | cut | cancelled => exact .keeps rfl rfl rfl rfl id
  | lapsed _ _ hd' => cases hd₀.symm.trans hd'
  | dropped => cases (dropped_drop l _).symm.trans hd
  | sent hc => cases hcl.symm.trans hc

/-! ## Lockers in tune -/

/-- The health and the loops go with the phase. -/
structure InTune (l : Locker) (h : History) : Prop where
  health : l.health = .idle ↔ l.phase ≠ .held
  /-- Nothing is renewed that is not held. -/
  ticker : l.phase ≠ .held → l.ticker = none
  /-- Of the loops that were started, all were stopped but the one that a held lock needs. -/
  loops : started h = stopped h + needed l.phase
  /-- A locker starts one loop in its life, when it is taken. -/
  once : started h ≤ if l.phase = .idle then 0 else 1

theorem inTune_make {o : Options} (hm : make o = .ok l) : InTune l [] := by
  obtain ⟨-, rfl⟩ := make_eq_ok_iff.1 hm
  refine ⟨?_, fun _ => rfl, rfl, Nat.zero_le _⟩
  simp

/-- A step that starts no loop and stops none keeps a locker in tune, if the lock is held after it
just when it was before. -/
theorem InTune.kept (hl : InTune l h) (hs : x.starts = false) (hx : x.stops = false)
    (hheld : l'.phase = .held ↔ l.phase = .held) (hidle : l'.phase = .idle → l.phase = .idle)
    (hh : l'.health = .idle ↔ l.health = .idle)
    (ht : l.phase ≠ .held → l.ticker = none → l'.ticker = none) : InTune l' (x :: h) where
  health := hh.trans (hl.health.trans (not_congr hheld.symm))
  ticker hne := by
    rw [Ne, hheld] at hne
    exact ht hne (hl.ticker hne)
  loops := by
    have hn : needed l'.phase = needed l.phase := by simp only [needed, hheld]
    rw [started_cons, stopped_cons, hs, hx, hn]
    exact hl.loops
  once := by
    rw [started_cons, hs]
    refine Nat.le_trans hl.once ?_
    split
    · exact Nat.zero_le _
    next hne => exact Nat.le_of_eq (if_neg (mt hidle hne)).symm

/-- **A step keeps a locker in tune.** -/
theorem InTune.step (hl : InTune l h) (t : Tends l x l') : InTune l' (x :: h) := by
  cases t with
  | begins hs hx hi hp hh _ =>
    have once : started h = 0 := by simpa [hi] using hl.once
    refine ⟨by simp [hh, hp], fun hne => absurd hp hne, ?_, ?_⟩
    · rw [started_cons, stopped_cons, hs, hx, hl.loops, hi, hp]
      rfl
    · rw [started_cons, hs, once, hp]
      exact Nat.le_refl 1
  | ends hs hx hph hp hh ht =>
    have once : started h ≤ 1 := by simpa [hph] using hl.once
    refine ⟨by simp [hh, hp], fun _ => ht, ?_, ?_⟩
    · rw [started_cons, stopped_cons, hs, hx, hl.loops, hph, hp]
      rfl
    · rw [started_cons, hs, hp]
      exact once
  | surrenders hs hx hne hp hh ht =>
    exact hl.kept hs hx (by simp [hp, hne]) (by simp [hp]) (by rw [hh]) fun _ => ht
  | publishes hs hx hph hp hh _ =>
    have hne : l.health ≠ .idle := by simp [hl.health, hph]
    exact hl.kept hs hx (by simp [hp, hph]) (by simp [hp]) (by simp [hne, hh hne])
      fun hne => absurd hph hne
  | keeps hs hx hp hh ht => exact hl.kept hs hx (by rw [hp]) (by simp [hp]) (by rw [hh]) fun _ => ht

/-- **A locker in use is in tune.** -/
theorem Run.inTune (run : Run l h) (hd : l.dropped = false) : InTune l h := by
  induction run with
  | made hm => exact inTune_make hm
  | step run _ hs ih => exact (ih (run.in_use hs hd).1).step (run.tends hs hd)

/-! ## Silence after unlocking -/

/-- The locker is released, its health is idle, and no loop is left. -/
structure Silenced (l : Locker) : Prop where
  phase : l.phase = .released
  health : l.health = .idle
  ticker : l.ticker = none

theorem Silenced.turn (hl : Silenced l) (t : Turn l now p l' fx) :
    Silenced l' ∧ p ≠ .ticker := by
  obtain ⟨phase, health, ticker⟩ := hl
  cases t with
  | served => exact ⟨⟨phase, health, ticker⟩, nofun⟩
  | surrendered => exact ⟨⟨rfl, health, ticker⟩, nofun⟩
  | attempted _ _ _ hp | refreshed _ _ _ hp | unlocked _ _ _ hp | returnedBack _ hp =>
    cases phase.symm.trans hp
  | ticked ht | ended ht => cases ticker.symm.trans ht
  | closed => exact ⟨⟨rfl, health, ticker⟩, nofun⟩

theorem Silenced.heard (hl : Silenced l) (hsd : Sound l) (hout : l.callingSince p ≠ none)
    (t : Heard l now p a l' fx) : Silenced l' ∧ p ≠ .ticker := by
  obtain ⟨phase, health, ticker⟩ := hl
  have hph := hsd.phase p a.op hout t.opOf
  cases t with
  | granted => cases phase.symm.trans hph
  | refused | napped | refreshed | released | closed => exact ⟨⟨phase, health, ticker⟩, nofun⟩
  | ticked ht => cases ticker.symm.trans ht

theorem Silenced.arrival (hl : Silenced l) (ha : Arrival l now e p l₀) :
    Silenced (l₀.joined p) ∧ p ≠ .ticker := by
  obtain ⟨hp, hh, ht⟩ := ha.renewal
  refine ⟨⟨hp.trans hl.phase, hh.trans hl.health, ht.2 hl.ticker⟩, ?_⟩
  rintro rfl
  cases ha with
  | tick htick => cases hl.ticker.symm.trans htick

theorem Silenced.drop (hl : Silenced l) (errands : Bool) : Silenced (l.drop errands) := by
  obtain ⟨phase, health, ticker⟩ := hl
  unfold Locker.drop
  split
  · rw [phase]
    exact ⟨rfl, health, ticker⟩
  · split <;> exact ⟨phase, health, ticker⟩

/-- **A silenced locker stays silent**, whoever moves it, and its loop does not. -/
theorem Silenced.step (hl : Silenced l) (hsd : Sound l) (st : Stepped l now e l' fx) :
    Silenced l' ∧ e.party? ≠ some .ticker := by
  cases st with
  | joined ha =>
    rw [ha.party, Ne, Option.some.injEq]
    exact hl.arrival ha
  | turned ha _ t =>
    obtain ⟨hj, hne⟩ := hl.arrival ha
    rw [ha.party, Ne, Option.some.injEq]
    exact ⟨(hj.turn t).1, hne⟩
  | resumed _ t =>
    rw [Event.party?, Ne, Option.some.injEq]
    exact hl.turn t
  | answered hout t | expired hout _ t =>
    rw [Event.party?, Ne, Option.some.injEq]
    exact hl.heard hsd hout t
  | cut | cancelled => exact ⟨⟨hl.phase, hl.health, hl.ticker⟩, fun hp => by cases hp⟩
  | lapsed ht => cases hl.ticker.symm.trans ht
  | dropped => exact ⟨hl.drop _, fun hp => by cases hp⟩
  | sent => exact ⟨⟨hl.phase, hl.health, rfl⟩, fun hp => by cases hp⟩

/-- A call to unlock that sends its release out silences the locker first. -/
theorem Turn.silenced (t : Turn l now p l' fx) (hx : fx.any Effect.unlocks = true) :
    Silenced l' := by
  cases t with
  | unlocked => exact ⟨rfl, rfl, rfl⟩
  | served | surrendered | attempted | refreshed | ticked | ended | returnedBack | closed =>
    cases hx

theorem Stepped.silenced (st : Stepped l now e l' fx) (hx : fx.any Effect.unlocks = true) :
    Silenced l' := by
  cases st with
  | turned _ _ t | resumed _ t => exact t.silenced hx
  | answered _ t =>
    rw [unlocks_of_returns t.returns] at hx
    cases hx
  | @expired p _ _ _ fx _ _ t =>
    change fx.any Effect.unlocks = true at hx
    rw [unlocks_of_returns t.returns] at hx
    cases hx
  | joined | cut | cancelled | lapsed | dropped | sent => cases hx

/-- **Once unlocked, a locker is silent**: its health is idle, and nothing is heard of its loop. -/
theorem Run.silenced (run : Run l h) {newer older : History} (hh : h = newer ++ x :: older)
    (hx : x.stops = true) : Silenced l ∧ ∀ y ∈ newer, y.event.party? ≠ some .ticker := by
  induction run generalizing newer with
  | made => cases newer <;> cases hh
  | step run _ hs ih =>
    cases newer with
    | nil =>
      cases hh
      exact ⟨(stepped_of_step hs).silenced hx, nofun⟩
    | cons y newer =>
      cases hh
      obtain ⟨hl, hnewer⟩ := ih rfl
      obtain ⟨hl', hparty⟩ := hl.step run.sound (stepped_of_step hs)
      refine ⟨hl', ?_⟩
      intro z hz
      rcases List.mem_cons.1 hz with rfl | hz
      · exact hparty
      · exact hnewer z hz

/-! ## The rules -/

/-- Where a loop comes from, and where it goes. -/
structure LoopRules (l : Locker) (x : Entry) (l' : Locker) : Prop where
  /-- A loop is started where there is none. -/
  starts : x.starts = true →
    l.ticker = none ∧ l'.ticker = some (.start l.options.interval x.time)
  stops : x.stops = true → l'.ticker = none
  /-- Nothing else brings a loop about. -/
  rests : x.starts = false → l.ticker = none → l'.ticker = none

theorem InTune.loopRules (hl : InTune l h) (t : Tends l x l') : LoopRules l x l' := by
  cases t with
  | begins hs hx hi _ _ ht =>
    have hn := hl.ticker (by simp [hi])
    exact ⟨fun _ => ⟨hn, ht⟩, by simp [hx], by simp [hs]⟩
  | ends hs _ _ _ _ ht => exact ⟨by simp [hs], fun _ => ht, fun _ _ => ht⟩
  | surrenders hs hx _ _ _ ht | keeps hs hx _ _ ht =>
    exact ⟨by simp [hs], by simp [hx], fun _ => ht⟩
  | publishes hs hx _ _ _ hn =>
    exact ⟨by simp [hs], by simp [hx], fun _ hn' => absurd hn' hn⟩

/-- **The health of a locker agrees with its phase.** Whatever the service answers and whenever,
whoever calls, and whoever is cancelled or cut off: as long as the locker is in use its health is
idle if and only if it is not held; of the renewal loops that were started all were stopped, but
the one of a held lock; and without a held lock no loop runs. Loops come by grants alone, and go
with the call to unlock. Once that call has sent its release out, the health stays idle and the loop
makes no further step. -/
theorem Run.health_agrees (run : Run l h) :
    (l.dropped = false →
      (l.health = .idle ↔ l.phase ≠ .held) ∧
        started h = stopped h + needed l.phase ∧ started h ≤ 1 ∧
        (l.phase ≠ .held → l.ticker = none)) ∧
      (∀ now e l' fx, Locker.step now l e = some (l', fx) → l'.dropped = false →
        LoopRules l ⟨now, e, fx⟩ l') ∧
      ∀ newer x older, h = newer ++ x :: older → x.stops = true →
        Silenced l ∧ ∀ y ∈ newer, y.event.party? ≠ some .ticker := by
  refine ⟨?_, ?_, fun newer x older => run.silenced⟩
  · intro hd
    obtain ⟨health, ticker, loops, once⟩ := run.inTune hd
    exact ⟨health, loops, Nat.le_trans once (by split <;> simp), ticker⟩
  · intro now e l' fx hs hd
    exact (run.inTune (run.in_use hs hd).1).loopRules (run.tends hs hd)

/-- A locker is taken, and asked to unlock while a tick is out; the tick fails, and its outcome is
published before the call to unlock goes on. A refresh comes too late. -/
def unlockBehindTick : List (Instant × Event) :=
  [(0, .call 0 .lock),
    (1, .answer (.caller 0) (.acquire (.ok .granted)) 0),
    (5000000001, .tick),
    (5000000002, .call 1 .unlock),
    (5000000003, .answer .ticker (.refresh (.error (.unavailable "gone"))) 0),
    (5000000003, .resume (.caller 1)),
    (5000000004, .call 2 .refresh)]

theorem health_agrees_unlockBehindTick : ∃ l h, Run l h ∧
    ((l.health = .idle ↔ l.phase ≠ .held) ∧ started h = stopped h + needed l.phase ∧
      started h = 1 ∧ l.ticker = none) ∧
    (∃ l' fx, Locker.step 5000000005 l (.answer (.caller 1) (.release (.ok ())) 0) = some (l', fx) ∧
      LoopRules l ⟨5000000005, .answer (.caller 1) (.release (.ok ())) 0, fx⟩ l') ∧
    ∃ newer x older, h = newer ++ x :: older ∧ x.stops = true ∧ newer ≠ [] ∧ Silenced l ∧
      ∀ y ∈ newer, y.event.party? ≠ some .ticker := by
  have made : Run { options := ownedByA } [] := .made (make_eq_ok_iff.2 ⟨rfl, rfl⟩)
  have run := made.replay
    (Option.some_get (x := replay ({ options := ownedByA }, []) unlockBehindTick) rfl).symm
  obtain ⟨tune, rules, silent⟩ := run.health_agrees
  obtain ⟨health, loops, -, ticker⟩ := tune rfl
  refine ⟨_, _, run, ⟨health, loops, rfl, ticker nofun⟩, ⟨_, _, rfl, ?_⟩, ?_⟩
  · exact rules 5000000005 _ _ _ rfl rfl
  · obtain ⟨hs, hn⟩ := silent [_] _ _ rfl rfl
    exact ⟨[_], _, _, rfl, rfl, nofun, hs, hn⟩

end LeaseLock.Locker
