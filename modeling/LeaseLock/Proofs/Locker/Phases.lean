import LeaseLock.Proofs.Locker.AtRest
import LeaseLock.Proofs.Locker.Calls
import LeaseLock.Proofs.Locker.Renewal

/-!
# The phases of a locker

**Where a locker can go** (`Phase.Goes`). From idle to held, and from anywhere to released, for
good.

**Who moves it** (`Shift`). A step leaves the phase as it was, unless the service grants the lock to
a caller that still waits for the answer, or a call to unlock gets the guard, or the last handle
is gone.

**Unlocking** (`Unlocking`). A call to unlock waits for the guard, and is heard of no more if it is
cancelled there. Once it has the guard the locker is released, and whatever becomes of the release
changes only what the call returns.

The steps of a locker are sorted by the party that makes them (`Event.party?`). A call can be cut
off while it waits for the guard or for the service, by its caller or at its bound. In neither place
is a change of the phase half done: an attempt has made none yet, and a call to unlock makes its own
before the release goes out.

Main result: `Run.phase_rules`.
-/

namespace LeaseLock

/-- The phases that a locker can come to. -/
inductive Phase.Goes : Phase → Phase → Prop
  | stays {s : Phase} : Goes s s
  | taken : Goes .idle .held
  | left {s : Phase} : Goes s .released

theorem Phase.Goes.trans {s₁ s₂ s₃ : Phase} (h : s₁.Goes s₂) (h' : s₂.Goes s₃) : s₁.Goes s₃ := by
  cases h' with
  | stays => exact h
  | taken =>
    cases h with
    | stays => exact .taken
  | left => exact .left

theorem Phase.Goes.released {s : Phase} (h : Phase.released.Goes s) : s = .released := by
  cases h <;> rfl

theorem Verb.eq_unlock {v : Verb} (h : v.op = some .release) : v = .unlock := by
  cases v <;> first | rfl | cases h

namespace Locker

variable {l l₀ l' : Locker} {h : History} {now : Instant} {e : Event} {fx : List Effect}
  {p : Party} {op : Op} {a : Answer} {n : Nat} {verb : Verb} {r : Except LockError Returned}
  {err : LockError}

/-! ## Whose step it is -/

/-- The party that makes the step; nobody makes the one that drops the last handle. -/
def Event.party? : Event → Option Party
  | .call n _ | .cancel n | .wake n => some (.caller n)
  | .resume p | .answer p _ _ | .expire p => some p
  | .tick => some .ticker
  | .close => some .closer
  | .drop _ => none

/-- The step is one of the call with the given number, which was made for `verb`. -/
def Acts (l : Locker) (e : Event) (n : Nat) (verb : Verb) : Prop :=
  e.party? = some (.caller n) ∧ Wishes l e n verb

/-- The latest call to the service is the party's, and has neither been answered nor cut off. -/
def Out (h : History) (p : Party) (op : Op) : Prop :=
  ∃ past since, calls h = past ++ [⟨p, op, since, none⟩]

theorem Wishes.eq {verb' : Verb} (hw : Wishes l e n verb) (hw' : Wishes l e n verb') :
    verb = verb' := by
  rcases hw with rfl | ⟨⟨c, hc, rfl⟩, hne⟩
  · rcases hw' with hw' | ⟨-, hne⟩
    · cases hw'
      rfl
    · exact absurd rfl (hne _)
  · rcases hw' with rfl | ⟨⟨c', hc', rfl⟩, -⟩
    · exact absurd rfl (hne _)
    · cases hc.symm.trans hc'
      rfl

theorem Wishes.exists_caller (hw : Wishes l e n verb) (he : ∀ v, e ≠ .call n v) :
    ∃ c, l.caller? n = some c ∧ c.verb = verb :=
  (hw.resolve_left (he verb)).1

theorem Wishes.opOf (hw : Wishes l e n verb) (he : ∀ v, e ≠ .call n v) :
    l.opOf (.caller n) = verb.op := by
  obtain ⟨c, hc, rfl⟩ := hw.exists_caller he
  show (l.caller? n).bind _ = _
  rw [hc]
  rfl

theorem Arrival.party (ha : Arrival l now e p l₀) : e.party? = some p := by
  cases ha <;> rfl

theorem Turn.has_caller (t : Turn l now (.caller n) l' fx) : ∃ c, l.caller? n = some c := by
  cases t with
  | served hc | surrendered hc | attempted hc | refreshed hc | unlocked hc => exact ⟨_, hc⟩

theorem Turn.returned (t : Turn l now p l' fx) (hr : .returned n r ∈ fx) : p = .caller n := by
  cases t with
  | served | surrendered =>
    simp only [List.mem_singleton, Effect.returned.injEq] at hr
    rw [hr.1]
  | attempted | refreshed | unlocked | ticked | ended | returnedBack | closed => simp at hr

theorem Heard.returned (t : Heard l now p a l' fx) (hr : .returned n r ∈ fx) : p = .caller n := by
  cases t with
  | granted | refused | refreshed | released =>
    simp only [List.mem_singleton, Effect.returned.injEq] at hr
    rw [hr.1]
  | napped | ticked | closed => simp at hr

/-- What a step returns, it returns to the call that makes the step. -/
theorem Stepped.returned (s : Stepped l now e l' fx) (hr : .returned n r ∈ fx) :
    e.party? = some (.caller n) := by
  cases s with
  | joined | cut | cancelled | lapsed | dropped | sent => simp at hr
  | turned ha _ ht => rw [ha.party, ht.returned hr]
  | resumed _ ht => rw [Event.party?, ht.returned hr]
  | answered _ hh => rw [Event.party?, hh.returned hr]
  | expired _ _ hh => rw [Event.party?, hh.returned ((List.mem_cons.1 hr).resolve_left nofun)]

theorem Turn.caller?_of_ne (t : Turn l now p l' fx) (hp : p ≠ .caller n) :
    l'.caller? n = l.caller? n := by
  cases t with
  | served | surrendered =>
    exact (caller?_removeCaller _ _ _).trans (if_neg fun h => hp (by rw [h]))
  | attempted | refreshed | unlocked =>
    exact (caller?_moveCaller _ _ _ _).trans (if_neg fun h => hp (by rw [h]))
  | ticked | ended | returnedBack | closed => rfl

theorem Heard.caller?_of_ne (t : Heard l now p a l' fx) (hp : p ≠ .caller n) :
    l'.caller? n = l.caller? n := by
  cases t with
  | granted | refused | refreshed | released =>
    exact (caller?_removeCaller _ _ _).trans (if_neg fun h => hp (by rw [h]))
  | napped => exact (caller?_moveCaller _ _ _ _).trans (if_neg fun h => hp (by rw [h]))
  | ticked | closed => rfl

theorem Arrival.caller?_of_ne (ha : Arrival l now e p l₀) (hp : p ≠ .caller n) :
    (l₀.joined p).caller? n = l.caller? n := by
  cases ha with
  | call _ hn => exact (caller?_addCaller hn _ _).trans (if_neg fun h => hp (by rw [h]))
  | wake => exact (caller?_moveCaller _ _ _ _).trans (if_neg fun h => hp (by rw [h]))
  | tick | close => rfl

theorem Stepped.caller?_of_ne (s : Stepped l now e l' fx) (hp : e.party? ≠ some (.caller n)) :
    l'.caller? n = l.caller? n := by
  cases s with
  | joined ha =>
    rw [ha.party, Ne, Option.some.injEq] at hp
    exact ha.caller?_of_ne hp
  | turned ha _ t =>
    rw [ha.party, Ne, Option.some.injEq] at hp
    exact (t.caller?_of_ne hp).trans (ha.caller?_of_ne hp)
  | resumed _ t =>
    rw [Event.party?, Ne, Option.some.injEq] at hp
    exact t.caller?_of_ne hp
  | answered _ t | expired _ _ t =>
    rw [Event.party?, Ne, Option.some.injEq] at hp
    exact t.caller?_of_ne hp
  | cut | cancelled =>
    exact (caller?_removeCaller _ _ _).trans (if_neg fun h => hp (by rw [h]; rfl))
  | dropped => exact caller?_drop _ _ _
  | lapsed | sent => rfl

theorem Run.out (run : Run l h) (hp : l.callingSince p ≠ none) (hop : l.opOf p = some op) :
    Out h p op := by
  have hf := run.fits
  generalize hcs : calls h = cs at hf
  cases hf with
  | rest hst => exact absurd (hst p) hp
  | wait hso =>
    obtain rfl := hso.eq hp
    obtain rfl := Option.some.inj (hso.2.1.symm.trans hop)
    exact ⟨_, _, hcs⟩

/-! ## Steps that change the phase -/

/-- Only a call to unlock and the errand change the phase at their turn. -/
theorem Turn.phase (t : Turn l now p l' fx) :
    l'.phase = l.phase ∨ l'.phase = .released ∧
      (p = .closer ∨ ∃ n c, p = .caller n ∧ l.caller? n = some c ∧ c.verb = .unlock) := by
  cases t with
  | served | attempted | refreshed | ticked | ended => exact .inl rfl
  | surrendered hc _ hv => exact .inr ⟨rfl, .inr ⟨_, _, rfl, hc, hv⟩⟩
  | unlocked hc _ hv => exact .inr ⟨rfl, .inr ⟨_, _, rfl, hc, Verb.eq_unlock hv⟩⟩
  | returnedBack | closed => exact .inr ⟨rfl, .inl rfl⟩

theorem phase_drop (l : Locker) (errands : Bool) :
    (l.drop errands).phase = l.phase ∨ (l.drop errands).phase = .released := by
  unfold drop
  split
  · right
    cases l.phase <;> cases errands <;> rfl
  · left
    cases errands <;> rfl

/-- What a step does to the phase. -/
inductive Shift (l : Locker) (e : Event) (l' : Locker) (fx : List Effect) : Prop
  | kept : l'.phase = l.phase → Shift l e l' fx
  | taken {n draw : Nat} {verb : Verb} : e = .answer (.caller n) (.acquire (.ok .granted)) draw →
      Acts l e n verb → verb.op = some .acquire → l.phase = .idle → l'.phase = .held →
      fx = [.returned n (.ok .done)] → Shift l e l' fx
  /-- A call to unlock has the guard. -/
  | unlocked {n : Nat} : Acts l e n .unlock → l'.phase = .released → Shift l e l' fx
  /-- The last handle is gone. -/
  | gone : e.party? = some .closer ∨ e.party? = none → l'.phase = .released → Shift l e l' fx

theorem Turn.shift (t : Turn l₀ now p l' fx) (hp : e.party? = some p) (hph : l₀.phase = l.phase)
    (hw : ∀ n c, l₀.caller? n = some c → Wishes l e n c.verb) : Shift l e l' fx := by
  rcases t.phase with hk | ⟨hr, rfl | ⟨n, c, rfl, hc, hv⟩⟩
  · exact .kept (hk.trans hph)
  · exact .gone (.inl hp) hr
  · exact .unlocked ⟨hp, hv ▸ hw n c hc⟩ hr

/-- An answer changes the phase only if it grants the lock. -/
theorem Heard.shift {draw : Nat} (hl : Sound l) (hout : l.callingSince p ≠ none)
    (t : Heard l now p a l' fx) : Shift l (.answer p a draw) l' fx := by
  obtain ⟨-, -, -, hph⟩ := t.ends hl hout
  by_cases ha : a = .acquire (.ok .granted)
  · subst ha
    have hi := hl.phase p .acquire hout t.opOf
    cases t with
    | granted hc hv => exact .taken rfl ⟨rfl, wishes_of_caller hc nofun⟩ hv hi rfl rfl
    | refused _ _ hr | napped _ _ hr => exact absurd rfl hr
  · exact .kept (hph.trans (Answer.leaves_of_ne ha _))

theorem Run.shift (run : Run l h) (hs : Locker.step now l e = some (l', fx)) :
    Shift l e l' fx := by
  cases stepped_of_step hs with
  | joined ha => exact .kept ha.renewal.1
  | turned ha _ ht => exact ht.shift ha.party ha.renewal.1 fun _ _ hc => ha.wishes hc
  | resumed _ ht => exact ht.shift rfl rfl fun _ _ hc => wishes_of_caller hc nofun
  | answered hout hh => exact hh.shift run.sound hout
  | @expired _ _ op _ _ hout _ hh =>
    obtain ⟨-, -, -, hph⟩ := hh.ends run.sound hout
    exact .kept (hph.trans (by cases op <;> rfl))
  | cut | cancelled | lapsed | sent => exact .kept rfl
  | @dropped errands =>
    rcases phase_drop l errands with hk | hr
    · exact .kept hk
    · exact .gone (.inr rfl) hr

theorem Shift.goes (s : Shift l e l' fx) : l.phase.Goes l'.phase := by
  cases s with
  | kept hk =>
    rw [hk]
    exact .stays
  | taken _ _ _ hi hp =>
    rw [hi, hp]
    exact .taken
  | unlocked _ hr | gone _ hr =>
    rw [hr]
    exact .left

theorem Run.goes {es : List (Instant × Event)} {s : Locker × History} (run : Run l h)
    (hs : Locker.replay (l, h) es = some s) : l.phase.Goes s.1.phase := by
  obtain ⟨-, -, -, goes⟩ := replay_induction
    (P := fun l' newer => Run l' (newer ++ h) ∧ l.phase.Goes l'.phase) ⟨run, .stays⟩
    (fun ⟨run', goes⟩ hle hst => ⟨run'.step hle hst, goes.trans (run'.shift hst).goes⟩) hs
  exact goes

/-- A step of a call that is made for something else than to unlock leaves the phase as it was,
unless it takes the lock. -/
theorem Shift.of_acts (s : Shift l e l' fx) (ha : Acts l e n verb) (hv : verb ≠ .unlock) :
    l'.phase = l.phase ∨
      verb.op = some .acquire ∧ l'.phase = .held ∧ fx = [.returned n (.ok .done)] := by
  obtain ⟨hp, hw⟩ := ha
  cases s with
  | kept hk => exact .inl hk
  | taken _ ha' hop _ hh hfx =>
    obtain ⟨hp', hw'⟩ := ha'
    cases hp.symm.trans hp'
    obtain rfl := hw.eq hw'
    exact .inr ⟨hop, hh, hfx⟩
  | unlocked ha' =>
    obtain ⟨hp', hw'⟩ := ha'
    cases hp.symm.trans hp'
    exact absurd (hw.eq hw') hv
  | gone hg =>
    rw [hp] at hg
    rcases hg with hg | hg <;> cases hg

theorem Shift.of_ticker (s : Shift l e l' fx) (hp : e.party? = some .ticker) :
    l'.phase = l.phase := by
  cases s with
  | kept hk => exact hk
  | taken _ ha | unlocked ha => cases hp.symm.trans ha.1
  | gone hg =>
    rw [hp] at hg
    rcases hg with hg | hg <;> cases hg

/-- **A locker becomes held** when a grant comes to a call that is still out, and only then. -/
theorem Run.becomes_held_iff (run : Run l h) (hs : Locker.step now l e = some (l', fx)) :
    l.phase ≠ .held ∧ l'.phase = .held ↔
      ∃ n draw, e = .answer (.caller n) (.acquire (.ok .granted)) draw ∧
        Out h (.caller n) .acquire ∧ fx = [.returned n (.ok .done)] := by
  constructor
  · rintro ⟨hne, hh⟩
    cases run.shift hs with
    | kept hk => exact absurd (hk.symm.trans hh) hne
    | @taken n draw _ he _ _ _ _ hfx =>
      subst he
      obtain ⟨hout, ht⟩ := heard_of_answer hs
      exact ⟨n, draw, rfl, run.out hout ht.opOf, hfx⟩
    | unlocked _ hr | gone _ hr => cases hr.symm.trans hh
  · rintro ⟨n, draw, rfl, -, -⟩
    obtain ⟨hout, ht⟩ := heard_of_answer hs
    obtain ⟨-, -, -, hph⟩ := ht.ends run.sound hout
    have hi := run.sound.phase _ .acquire hout ht.opOf
    exact ⟨by simp [hi, Op.during], hph⟩

/-! ## Unlocking -/

/-- The release that the call made has failed: the service says so, or the call to it has reached
its bound. -/
def ReleaseFails (l : Locker) (h : History) (e : Event) (n : Nat) (err : LockError) : Prop :=
  Out h (.caller n) .release ∧
    ((∃ draw, e = .answer (.caller n) (.release (.error err)) draw) ∨
      ∃ limit, l.options.callTimeout = some limit ∧ e = .expire (.caller n) ∧
        err = .timedOut limit)

/-- What a step of a call to unlock can be. -/
inductive Unlocking (l : Locker) (h : History) (n : Nat) :
    Event → Locker → List Effect → Prop
  /-- The call does not have the guard yet, or is cancelled before it goes on. -/
  | waits {e : Event} {l' : Locker} : l'.phase = l.phase → l.callingSince (.caller n) = none →
      e = .cancel n ∨ l'.guard.holder ≠ some (.caller n) → Unlocking l h n e l' []
  /-- Nothing was held, and the service is not asked. -/
  | spared {e : Event} {l' : Locker} : l.phase ≠ .held → l'.phase = .released →
      Unlocking l h n e l' [.returned n (.ok .done)]
  | asks {e : Event} {l' : Locker} : l.phase = .held → l'.phase = .released →
      Unlocking l h n e l' [.start (.caller n) .release]
  | succeeds {draw : Nat} {l' : Locker} : Out h (.caller n) .release → l'.phase = .released →
      Unlocking l h n (.answer (.caller n) (.release (.ok ())) draw) l' [.returned n (.ok .done)]
  | fails {e : Event} {err : LockError} {l' : Locker} {fx : List Effect} :
      ReleaseFails l h e n err → l'.phase = .released →
      fx = [.returned n (.error (.unconfirmed err))] ∨
        fx = [.cut (.caller n), .returned n (.error (.unconfirmed err))] →
      Unlocking l h n e l' fx
  /-- The call is cancelled while its release is out. -/
  | cut {l' : Locker} : Out h (.caller n) .release → l'.phase = .released →
      Unlocking l h n (.cancel n) l' [.cut (.caller n)]

theorem Turn.of_unlock {c : Caller} (t : Turn l now (.caller n) l' fx) (hc : l.caller? n = some c)
    (hv : c.verb = .unlock) :
    l'.phase = .released ∧ (l.phase ≠ .held ∧ fx = [.returned n (.ok .done)] ∨
      l.phase = .held ∧ fx = [.start (.caller n) .release]) := by
  have same : ∀ {c'}, l.caller? n = some c' → c'.verb = .unlock := by
    intro c' hc'
    cases hc.symm.trans hc'
    exact hv
  cases t with
  | served hc' _ hne => exact absurd (same hc') hne
  | surrendered _ _ _ hp => exact ⟨rfl, .inl ⟨hp, rfl⟩⟩
  | attempted hc' _ hop | refreshed hc' _ hop =>
    rw [same hc'] at hop
    cases hop
  | unlocked _ _ _ hp => exact ⟨rfl, .inr ⟨hp, rfl⟩⟩

/-- The turn of a call to unlock, however the call came to it. -/
theorem Turn.unlocking (t : Turn l₀ now (.caller n) l' fx) (hph : l₀.phase = l.phase)
    (hw : ∀ c, l₀.caller? n = some c → c.verb = .unlock) : Unlocking l h n e l' fx := by
  obtain ⟨c, hc⟩ := t.has_caller
  obtain ⟨hr, ⟨hp, rfl⟩ | ⟨hp, rfl⟩⟩ := t.of_unlock hc (hw c hc)
  · exact .spared (hph ▸ hp) hr
  · exact .asks (hph ▸ hp) hr

theorem Arrival.unlocking (ha : Arrival l now e (.caller n) l₀)
    (hs : l.step now e = some (l', fx)) (hw : Wishes l e n .unlock) : Unlocking l h n e l' fx := by
  rcases ha.turned_or_waits hs with t | ⟨rfl, rfl, hn⟩
  · exact t.unlocking ha.renewal.1 fun c hc => (ha.wishes hc).eq hw
  · exact .waits ha.renewal.1 ha.callingSince (.inr hn)

theorem Heard.of_release (t : Heard l now (.caller n) a l' fx)
    (hop : l.opOf (.caller n) = some .release) :
    ∃ r, a = .release r ∧ fx = [.returned n ((r.map fun () => .done).mapError .unconfirmed)] := by
  have ha : a.op = .release := Option.some.inj (t.opOf.symm.trans hop)
  cases t with
  | granted | refused | napped | refreshed => cases ha
  | @released _ _ r => exact ⟨r, rfl, rfl⟩

/-- **Every step of a call to unlock** is one of these. -/
theorem Run.unlocking (run : Run l h) (hs : Locker.step now l e = some (l', fx))
    (ha : Acts l e n .unlock) : Unlocking l h n e l' fx := by
  obtain ⟨hp, hw⟩ := ha
  -- while its release is out, the call finds the locker released
  have out : (∀ v, e ≠ .call n v) → l.callingSince (.caller n) ≠ none →
      l.opOf (.caller n) = some .release ∧ Out h (.caller n) .release ∧ l'.phase = .released := by
    intro he hout
    have hop : l.opOf (.caller n) = some .release := hw.opOf he
    have hr : l.phase = .released := run.sound.phase _ _ hout hop
    exact ⟨hop, run.out hout hop, (hr ▸ (run.shift hs).goes).released⟩
  cases stepped_of_step hs with
  | joined har | turned har _ _ =>
    cases har.party.symm.trans hp
    exact har.unlocking hs hw
  | resumed _ t =>
    cases hp
    refine t.unlocking rfl ?_
    intro c hc
    have hw' : Wishes l (.resume (.caller n)) n c.verb := wishes_of_caller hc nofun
    exact hw'.eq hw
  | answered hout t =>
    cases hp
    obtain ⟨hop, hin, hr⟩ := out nofun hout
    obtain ⟨r, rfl, rfl⟩ := t.of_release hop
    cases r with
    | ok u => exact .succeeds hin hr
    | error err => exact .fails ⟨hin, .inl ⟨_, rfl⟩⟩ hr (.inl rfl)
  | expired hout _ _ =>
    cases hp
    obtain ⟨hop, hin, hr⟩ := out nofun hout
    obtain ⟨limit, op, fx', hlimit, -, hop', hfx, t⟩ := bound_of_expire hs
    obtain rfl := Option.some.inj (hop'.symm.trans hop)
    obtain ⟨r, hfail, rfl⟩ := t.of_release hop
    cases hfail
    exact .fails ⟨hin, .inr ⟨limit, hlimit, rfl, rfl⟩⟩ hr (.inr hfx)
  | cut hout =>
    cases hp
    obtain ⟨-, hin, hr⟩ := out nofun hout
    exact .cut hin hr
  | cancelled hn =>
    cases hp
    exact .waits rfl hn (.inl rfl)
  | lapsed | dropped | sent => cases hp

/-- **A call to unlock returns `unconfirmed`** exactly when it made a release and the release
failed. -/
theorem Run.unconfirmed_iff (run : Run l h) (hs : Locker.step now l e = some (l', fx))
    (ha : Acts l e n .unlock) :
    .returned n (.error (.unconfirmed err)) ∈ fx ↔ ReleaseFails l h e n err := by
  constructor
  · intro hr
    cases run.unlocking hs ha with
    | waits | spared | asks | succeeds | cut => simp at hr
    | @fails _ err' _ _ hf _ hfx =>
      obtain rfl : err = err' := by rcases hfx with rfl | rfl <;> simpa using hr
      exact hf
  · rintro ⟨-, ⟨draw, rfl⟩ | ⟨limit, hlimit, rfl, rfl⟩⟩
    · obtain ⟨-, t⟩ := heard_of_answer hs
      obtain ⟨r, hr, rfl⟩ := t.of_release t.opOf
      cases hr
      exact List.mem_cons_self
    · obtain ⟨limit', op, fx', hlimit', -, hop, rfl, t⟩ := bound_of_expire hs
      obtain rfl := Option.some.inj (hlimit'.symm.trans hlimit)
      have hop' : l.opOf (.caller n) = some .release := ha.2.opOf nofun
      obtain rfl := Option.some.inj (hop.symm.trans hop')
      obtain ⟨r, hr, rfl⟩ := t.of_release hop
      cases hr
      exact List.mem_cons_of_mem _ List.mem_cons_self

/-- A call to unlock that is first in the line goes on, and releases the locker. -/
theorem unlock_goes_on {began now : Instant} (hh : l.guard.holder = some (.caller n))
    (hc : l.caller? n = some ⟨.unlock, began, .waiting⟩) :
    ∃ l' fx, l.step now (.resume (.caller n)) = some (l', fx) ∧ l'.phase = .released := by
  have hp : l.proceed now (.caller n) = some (l.enterCaller now n .unlock) := by
    unfold proceed
    rw [if_neg (by simp [hh])]
    simp only [hc]
  refine ⟨_, _, hp, ?_⟩
  obtain ⟨-, t⟩ := turn_of_proceed hp
  exact (t.of_unlock hc rfl).1

/-! ## The rules -/

/-- What a locker lets happen to the calls that are made on it. -/
structure Responsive (l : Locker) (now : Instant) : Prop where
  /-- A call to unlock that is first in the line goes on. -/
  unlock : ∀ n began, l.guard.holder = some (.caller n) →
    l.caller? n = some ⟨.unlock, began, .waiting⟩ →
    ∃ l' fx, l.step now (.resume (.caller n)) = some (l', fx) ∧ l'.phase = .released
  /-- Whatever the service answers, at any time. -/
  answer : ∀ p a draw, l.callingSince p ≠ none → l.opOf p = some a.op →
    ∃ l' fx, l.step now (.answer p a draw) = some (l', fx)
  expire : ∀ p limit since op, l.options.callTimeout = some limit →
    l.callingSince p = some since → l.opOf p = some op → limit.after since ≤ now →
    ∃ l' fx, l.step now (.expire p) = some (l', fx)
  /-- Wherever the call stands. -/
  cancel : ∀ n c, l.caller? n = some c → ∃ l' fx, l.step now (.cancel n) = some (l', fx)

theorem responsive (l : Locker) (now : Instant) : Responsive l now where
  unlock _ _ := unlock_goes_on
  answer _ _ draw hout hop := exists_answer hout hop draw
  expire p limit since op hlimit hsince hop hle := by
    have hout : l.callingSince p ≠ none := by simp [hsince]
    have hop' : l.opOf p = some (Answer.failed (.timedOut limit) op).op := by
      rw [hop, Answer.op_failed]
    obtain ⟨l', fx, ha⟩ : ∃ l' fx,
        l.answer now p (.failed (.timedOut limit) op) 0 = some (l', fx) :=
      exists_answer hout hop' 0
    refine ⟨l', .cut p :: fx, ?_⟩
    show l.expire now p = _
    simp only [Locker.expire, hlimit, hsince, hop, if_pos hle, ha, Option.map_some]
  cancel _ c hc := ⟨_, _, Option.map_eq_some_iff.2 ⟨c, hc, rfl⟩⟩

/-- What a step does to the phase of the locker. -/
structure PhaseRules (l : Locker) (h : History) (e : Event) (l' : Locker) (fx : List Effect) :
    Prop where
  /-- From idle to held, or to released. -/
  goes : l.phase.Goes l'.phase
  /-- Held only by a grant to a call that was neither answered nor cut off before. -/
  held : l.phase ≠ .held ∧ l'.phase = .held ↔
    ∃ n draw, e = .answer (.caller n) (.acquire (.ok .granted)) draw ∧
      Out h (.caller n) .acquire ∧ fx = [.returned n (.ok .done)]
  /-- A call returns by a step of its own. -/
  returned : ∀ n r, .returned n r ∈ fx → e.party? = some (.caller n)
  /-- An attempt that does not take the lock: it fails, runs into a bound or is cancelled. -/
  attempt : ∀ n verb, Acts l e n verb → verb.op = some .acquire →
    l'.phase = l.phase ∨ l'.phase = .held ∧ fx = [.returned n (.ok .done)]
  /-- A refresh, or a question for the state. -/
  kept : ∀ n verb, Acts l e n verb → verb.op = some .refresh ∨ verb.op = none →
    l'.phase = l.phase
  tick : e.party? = some .ticker → l'.phase = l.phase
  unlock : ∀ n, Acts l e n .unlock → Unlocking l h n e l' fx
  unconfirmed : ∀ n err, Acts l e n .unlock →
    (.returned n (.error (.unconfirmed err)) ∈ fx ↔ ReleaseFails l h e n err)

theorem Run.rules (run : Run l h) (hs : Locker.step now l e = some (l', fx)) :
    PhaseRules l h e l' fx where
  goes := (run.shift hs).goes
  held := run.becomes_held_iff hs
  returned _ _ := (stepped_of_step hs).returned
  attempt n verb ha hv := by
    have hne : verb ≠ .unlock := by
      rintro rfl
      cases hv
    exact ((run.shift hs).of_acts ha hne).imp_right And.right
  kept n verb ha hv := by
    have hne : verb ≠ .unlock := by
      rintro rfl
      rcases hv with hv | hv <;> cases hv
    refine ((run.shift hs).of_acts ha hne).resolve_right ?_
    rintro ⟨hop, -⟩
    rw [hop] at hv
    rcases hv with hv | hv <;> cases hv
  tick := (run.shift hs).of_ticker
  unlock _ := run.unlocking hs
  unconfirmed _ _ := run.unconfirmed_iff hs

/-- **The phases of a locker.** Whatever the service answers and whenever, and whoever is cancelled:
a locker goes from idle to held and from there, or at once, to released, and stays released. Only
a grant makes it held. A failed attempt, a refresh and a tick leave the phase alone. A call to
unlock that gets the guard releases the locker, and returns `unconfirmed` if and only if it made a
release that failed. And none of this is for want of steps: answers are taken, calls can be cut
off, and an unlock whose turn it is goes on. -/
theorem Run.phase_rules (run : Run l h) :
    (∀ es s, Locker.replay (l, h) es = some s → l.phase.Goes s.1.phase) ∧
      (∀ now, Responsive l now) ∧
      ∀ now e l' fx, Locker.step now l e = some (l', fx) → PhaseRules l h e l' fx :=
  ⟨fun _ _ => run.goes, responsive l, fun _ _ _ _ => run.rules⟩

/-- A locker is taken, and asked to unlock while a tick is out; the tick runs into its bound, and so
does the release. -/
def slowUnlock : List (Instant × Event) :=
  [(0, .call 0 .lock),
    (1, .answer (.caller 0) (.acquire (.ok .granted)) 0),
    (5000000001, .tick),
    (5000000002, .call 1 .unlock),
    (6000000001, .expire .ticker),
    (6000000001, .resume (.caller 1))]

theorem phase_rules_slowUnlock : ∃ l h, Run l h ∧ l.phase = .released ∧
    ∃ l' fx, Locker.step 7000000001 l (.expire (.caller 1)) = some (l', fx) ∧
      PhaseRules l h (.expire (.caller 1)) l' fx ∧
      .returned 1 (.error (.unconfirmed (.timedOut (.ofSecs 1)))) ∈ fx := by
  have made : Run { options := ownedByA } [] := .made (make_eq_ok_iff.2 ⟨rfl, rfl⟩)
  have run := made.replay
    (Option.some_get (x := replay ({ options := ownedByA }, []) slowUnlock) rfl).symm
  refine ⟨_, _, run, rfl, _, _, rfl, ?_, ?_⟩
  · exact run.phase_rules.2.2 7000000001 _ _ _ rfl
  · exact List.mem_cons_of_mem _ List.mem_cons_self

end Locker

end LeaseLock
