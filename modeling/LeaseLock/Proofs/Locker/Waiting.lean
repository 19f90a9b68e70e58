import LeaseLock.Proofs.Locker.History

/-!
# Who waits for the service

A locker asks its service one thing at a time.

**The guard** keeps callers and ticks apart: whoever waits for the service stands first in the
line (`Sound.first`). The errand of a dropped locker may go out without the guard, but only when
the locker is released and nobody else can ask (`Sound.errand`).

**The phase** follows the calls: the locker is idle while an attempt is out, held during a refresh
and released during a release (`Op.during`, `Sound.phase`).

Main results: `Sound.step`, and what a step can change: a call goes out (`Turn.starts`), a call
ends (`Heard.ends`), or nobody's call is touched (`Quiet`).
-/

namespace LeaseLock

/-- The phase of a locker while it waits for the answer. -/
def Op.during : Op → Phase
  | .acquire => .idle
  | .refresh => .held
  | .release => .released

/-- The phase of a locker when the call goes out under the guard. -/
def Op.before : Op → Phase
  | .acquire => .idle
  | .refresh | .release => .held

/-- The phase that an answer leaves behind. -/
def Answer.leaves (a : Answer) (s : Phase) : Phase :=
  match a with
  | .acquire (.ok .granted) => .held
  | _ => s

theorem Answer.leaves_of_ne {a : Answer} (h : a ≠ .acquire (.ok .granted)) (s : Phase) :
    a.leaves s = s := by
  unfold Answer.leaves
  split
  · exact absurd rfl h
  · rfl

theorem Answer.leaves_of_not_renews {a : Answer} (h : a.renews = false) (s : Phase) :
    a.leaves s = s := by
  refine Answer.leaves_of_ne ?_ s
  rintro rfl
  cases h

/-- Since when a call at this stage has been waiting for the service. -/
def Caller.Stage.since? : Caller.Stage → Option Instant
  | .calling t => some t
  | _ => none

def Ticker.Stage.since? : Ticker.Stage → Option Instant
  | .calling t => some t
  | _ => none

def Closer.since? : Closer → Option Instant
  | .calling t => some t
  | _ => none

namespace Locker

variable {l l' : Locker} {now : Instant} {p q : Party} {n : Nat} {e : Event} {fx : List Effect}

/-! ## Since when -/

theorem callingSince_caller (l : Locker) (n : Nat) :
    l.callingSince (.caller n) = (l.caller? n).bind (·.stage.since?) := by
  unfold callingSince
  cases h : l.caller? n with
  | none => simp [h]
  | some c =>
    obtain ⟨verb, began, stage⟩ := c
    cases stage <;> simp [h, Caller.Stage.since?]

theorem callingSince_ticker (l : Locker) :
    l.callingSince .ticker = l.ticker.bind (·.stage.since?) := by
  unfold callingSince
  cases h : l.ticker with
  | none => simp
  | some t =>
    obtain ⟨due, renewed, stage⟩ := t
    cases stage <;> simp [Ticker.Stage.since?]

theorem callingSince_closer (l : Locker) :
    l.callingSince .closer = l.closer.bind Closer.since? := by
  unfold callingSince
  cases h : l.closer with
  | none => simp
  | some c => cases c <;> simp [Closer.since?]

theorem callingSince_caller_congr (h : ∀ m, l'.caller? m = l.caller? m) (n : Nat) :
    l'.callingSince (.caller n) = l.callingSince (.caller n) := by
  rw [callingSince_caller, callingSince_caller, h]

theorem callingSince_ticker_congr (h : l'.ticker = l.ticker) :
    l'.callingSince .ticker = l.callingSince .ticker := by
  rw [callingSince_ticker, callingSince_ticker, h]

theorem callingSince_closer_congr (h : l'.closer = l.closer) :
    l'.callingSince .closer = l.callingSince .closer := by
  rw [callingSince_closer, callingSince_closer, h]

theorem callingSince_congr (hc : ∀ m, l'.caller? m = l.caller? m) (ht : l'.ticker = l.ticker)
    (hcl : l'.closer = l.closer) (q : Party) : l'.callingSince q = l.callingSince q := by
  cases q with
  | caller m => exact callingSince_caller_congr hc m
  | ticker => exact callingSince_ticker_congr ht
  | closer => exact callingSince_closer_congr hcl

theorem callingSince_joined (l : Locker) (p q : Party) :
    (l.joined p).callingSince q = l.callingSince q :=
  callingSince_congr (fun _ => rfl) rfl rfl q

theorem callingSince_moveCaller (l : Locker) (n : Nat) (stage : Caller.Stage) (q : Party) :
    (l.moveCaller n stage).callingSince q =
      if q = .caller n then (l.caller? n).bind fun _ => stage.since? else l.callingSince q := by
  cases q with
  | caller m =>
    rw [callingSince_caller, callingSince_caller, caller?_moveCaller]
    by_cases hm : m = n
    · subst hm
      rw [if_pos rfl, if_pos rfl]
      cases l.caller? m <;> rfl
    · rw [if_neg hm, if_neg (by simpa using hm)]
  | ticker =>
    rw [if_neg (by simp)]
    exact callingSince_ticker_congr rfl
  | closer =>
    rw [if_neg (by simp)]
    exact callingSince_closer_congr rfl

theorem callingSince_removeCaller (l : Locker) (n : Nat) (q : Party) :
    (l.removeCaller n).callingSince q = if q = .caller n then none else l.callingSince q := by
  cases q with
  | caller m =>
    rw [callingSince_caller, callingSince_caller, caller?_removeCaller]
    by_cases hm : m = n
    · rw [if_pos hm, if_pos (by rw [hm]), Option.bind_none]
    · rw [if_neg hm, if_neg (by simpa using hm)]
  | ticker =>
    rw [if_neg (by simp)]
    exact callingSince_ticker_congr rfl
  | closer =>
    rw [if_neg (by simp)]
    exact callingSince_closer_congr rfl

theorem callingSince_stopTicker (l : Locker) (q : Party) :
    l.stopTicker.callingSince q = if q = .ticker then none else l.callingSince q := by
  cases q with
  | caller m =>
    rw [if_neg (by simp)]
    exact callingSince_caller_congr (fun _ => rfl) m
  | ticker => rfl
  | closer =>
    rw [if_neg (by simp)]
    exact callingSince_closer_congr rfl

/-! ## The line -/

theorem holder_join {g : Guard} (h : g.holder = some q) (p : Party) :
    (g.join p).holder = some q := by
  unfold Guard.holder Guard.join at *
  cases hl : g.line with
  | nil => simp [hl] at h
  | cons a as => simpa [hl] using h

theorem holder_leave {g : Guard} (h : g.holder = some q) (hp : q ≠ p) :
    (g.leave p).holder = some q := by
  unfold Guard.holder Guard.leave at *
  cases hl : g.line with
  | nil => simp [hl] at h
  | cons a as =>
    obtain rfl : a = q := by simpa [hl] using h
    rw [List.erase_cons_tail (by simpa using hp)]
    rfl

/-! ## Soundness -/

/-- A locker asks its service one thing at a time, in the phase that goes with it. -/
structure Sound (l : Locker) : Prop where
  /-- Whoever waits for the service has the guard, but for the errand. -/
  first : ∀ p, p ≠ .closer → l.callingSince p ≠ none → l.guard.holder = some p
  /-- When the errand needs no guard, the locker is released and nobody else waits. -/
  errand : l.closer = some .armed ∨ l.callingSince .closer ≠ none →
    l.phase = .released ∧ ∀ p, p ≠ .closer → l.callingSince p = none
  /-- The phase goes with the operation that is out. -/
  phase : ∀ p op, l.callingSince p ≠ none → l.opOf p = some op → l.phase = op.during
  /-- There is an errand only once the last handle is gone. -/
  gone : l.closer ≠ none → l.dropped = true

/-- Nobody waits for the service. -/
def Still (l : Locker) : Prop := ∀ q, l.callingSince q = none

/-- Only this party waits for the service. -/
def Sole (l : Locker) (p : Party) (op : Op) (t : Instant) : Prop :=
  l.callingSince p = some t ∧ l.opOf p = some op ∧ ∀ q, q ≠ p → l.callingSince q = none

/-- Nobody's call is touched, and the phase changes at most to released, while nobody waits. -/
structure Quiet (l l' : Locker) : Prop where
  calling : ∀ q, l'.callingSince q = l.callingSince q
  op : ∀ q, l.callingSince q ≠ none → l'.opOf q = l.opOf q
  phase : l'.phase = l.phase ∨ l'.phase = .released ∧ l.Still
  armed : l'.closer = some .armed → l.closer = some .armed ∨ l.phase = .held

theorem Still.congr (hs : l.Still) (hc : ∀ m, l'.caller? m = l.caller? m)
    (ht : l'.ticker = l.ticker) (hcl : l'.closer = l.closer) : l'.Still :=
  fun q => (callingSince_congr hc ht hcl q).trans (hs q)

theorem Sole.eq {op : Op} {t : Instant} (hs : l.Sole p op t) (hq : l.callingSince q ≠ none) :
    q = p := by
  by_contra hne
  exact hq (hs.2.2 q hne)

theorem still_removeCaller (h : ∀ q, q ≠ .caller n → l.callingSince q = none) :
    (l.removeCaller n).Still := by
  intro q
  rw [callingSince_removeCaller]
  split
  · rfl
  next hq => exact h q hq

theorem Still.stopTicker (hs : l.Still) : l.stopTicker.Still := by
  intro q
  rw [callingSince_stopTicker, hs q, ite_self]

theorem sound_of_still (hs : l.Still) (ha : l.closer ≠ some .armed)
    (hg : l.closer ≠ none → l.dropped = true) : Sound l where
  first p _ hp := absurd (hs p) hp
  errand h := (h.elim ha (absurd (hs _))).elim
  phase p _ hp _ := absurd (hs p) hp
  gone := hg

theorem sound_of_sole {op : Op} {t : Instant} (hs : l.Sole p op t)
    (hh : p ≠ .closer → l.guard.holder = some p) (hph : l.phase = op.during)
    (ha : p ≠ .closer → l.closer ≠ some .armed) (hg : l.closer ≠ none → l.dropped = true) :
    Sound l := by
  refine ⟨?_, ?_, ?_, hg⟩
  · intro q hc h
    obtain rfl := hs.eq h
    exact hh hc
  · intro h
    have hpc : p = .closer := by
      by_contra hne
      exact h.elim (ha hne) fun h => hne (hs.eq h).symm
    subst hpc
    obtain rfl : Op.release = op := by simpa [opOf] using hs.2.1
    exact ⟨hph, hs.2.2⟩
  · intro q op' h hop'
    obtain rfl := hs.eq h
    obtain rfl : op' = op := Option.some.inj (hop'.symm.trans hs.2.1)
    exact hph

theorem sound_make {o : Options} (h : make o = .ok l) : Sound l ∧ l.Still := by
  obtain ⟨-, rfl⟩ := make_eq_ok_iff.1 h
  have hs : Still { options := o } := by
    intro q
    cases q <;> rfl
  exact ⟨sound_of_still hs (by simp) (by simp), hs⟩

/-! ## Turns -/

theorem Turn.not_waiting (t : Turn l now p l' fx) : l.callingSince p = none := by
  cases t with
  | served hc hs | surrendered hc hs | attempted hc hs | refreshed hc hs | unlocked hc hs =>
    rw [callingSince_caller, hc, Option.bind_some, hs]
    rfl
  | ticked ht hs | ended ht hs =>
    rw [callingSince_ticker, ht, Option.bind_some, hs]
    rfl
  | returnedBack hc | closed hc =>
    rw [callingSince_closer, hc]
    rfl

/-- Nobody else waits either, but perhaps the errand. -/
theorem Turn.others (hl : Sound l) (hh : l.guard.holder = some p) (t : Turn l now p l' fx) :
    ∀ q, q ≠ .closer → l.callingSince q = none := by
  intro q hq
  by_contra h
  have hqp : q = p := Option.some.inj ((hl.first q hq h).symm.trans hh)
  subst hqp
  exact h t.not_waiting

theorem Turn.still (hl : Sound l) (hh : l.guard.holder = some p) (t : Turn l now p l' fx)
    (hp : l.phase ≠ .released) : l.Still := by
  intro q
  by_cases hq : q = .closer
  · subst hq
    by_contra h
    exact hp (hl.errand (.inr h)).1
  · exact t.others hl hh q hq

theorem opOf_moveCaller {c : Caller} (hc : l.caller? n = some c) (stage : Caller.Stage) :
    (l.moveCaller n stage).opOf (.caller n) = c.verb.op := by
  show ((l.moveCaller n stage).caller? n).bind (·.verb.op) = c.verb.op
  rw [caller?_moved hc]
  rfl

/-- A caller asks the service, and nobody else does. -/
theorem sole_moveCaller {c : Caller} {op : Op} (hst : l.Still) (hc : l.caller? n = some c)
    (hv : c.verb.op = some op) (now : Instant) :
    (l.moveCaller n (.calling now)).Sole (.caller n) op now := by
  refine ⟨?_, (opOf_moveCaller hc _).trans hv, ?_⟩
  · rw [callingSince_moveCaller, if_pos rfl, hc]
    rfl
  · intro q hq
    rw [callingSince_moveCaller, if_neg hq]
    exact hst q

theorem sole_ticker (hst : l.Still) (t : Ticker) (now : Instant) :
    Sole { l with ticker := some { t with stage := .calling now } } .ticker .refresh now := by
  refine ⟨rfl, rfl, ?_⟩
  intro q hq
  cases q with
  | caller m => exact (callingSince_caller_congr (l := l) (fun _ => rfl) m).trans (hst _)
  | ticker => exact absurd rfl hq
  | closer => exact (callingSince_closer_congr (l := l) rfl).trans (hst _)

theorem sole_sendRelease (hq : ∀ q, q ≠ .closer → l.callingSince q = none) (now : Instant) :
    (l.sendRelease now).1.Sole .closer .release now := by
  refine ⟨rfl, rfl, ?_⟩
  intro q hne
  have hs : l.stopTicker.callingSince q = none := by
    rw [callingSince_stopTicker, hq q hne, ite_self]
  cases q with
  | caller m => exact (callingSince_caller _ m).trans ((callingSince_caller _ m).symm.trans hs)
  | ticker => rfl
  | closer => exact absurd rfl hne

/-- **What a turn sends out goes out alone.** -/
theorem Turn.starts (hl : Sound l) (hh : l.guard.holder = some p) (t : Turn l now p l' fx)
    {q : Party} {op : Op} (hs : .start q op ∈ fx) :
    q = p ∧ fx = [.start p op] ∧ Sound l' ∧ l.Still ∧ l'.Sole p op now ∧ l.phase = op.before ∧
      l'.phase = op.during := by
  have still := t.still hl hh
  have unarmed : l.phase ≠ .released → l.closer ≠ some .armed :=
    fun hp ha => hp (hl.errand (.inl ha)).1
  cases t with
  | served | surrendered | ended | closed => simp at hs
  | @attempted n c hc _ hv hp =>
    obtain ⟨rfl, rfl⟩ : q = .caller n ∧ op = .acquire := by simpa using hs
    have hr : l.phase ≠ .released := by simp [hp]
    have hso := sole_moveCaller (still hr) hc hv now
    have hsd := sound_of_sole hso (fun _ => hh) hp (fun _ => unarmed hr) hl.gone
    exact ⟨rfl, rfl, hsd, still hr, hso, hp, hp⟩
  | @refreshed n c hc _ hv hp =>
    obtain ⟨rfl, rfl⟩ : q = .caller n ∧ op = .refresh := by simpa using hs
    have hr : l.phase ≠ .released := by simp [hp]
    have hso := sole_moveCaller (still hr) hc hv now
    have hsd := sound_of_sole hso (fun _ => hh) hp (fun _ => unarmed hr) hl.gone
    exact ⟨rfl, rfl, hsd, still hr, hso, hp, hp⟩
  | @unlocked n c hc _ hv hp =>
    obtain ⟨rfl, rfl⟩ : q = .caller n ∧ op = .release := by simpa using hs
    have hr : l.phase ≠ .released := by simp [hp]
    have hst : Still { l.stopTicker with phase := .released, health := .idle } :=
      (still hr).stopTicker.congr (fun _ => rfl) rfl rfl
    have hso := sole_moveCaller hst hc hv now
    have hsd := sound_of_sole hso (fun _ => holder_leave hh (by simp)) rfl
      (fun _ => unarmed hr) hl.gone
    exact ⟨rfl, rfl, hsd, still hr, hso, hp, rfl⟩
  | @ticked t _ _ hp =>
    obtain ⟨rfl, rfl⟩ : q = .ticker ∧ op = .refresh := by simpa using hs
    have hr : l.phase ≠ .released := by simp [hp]
    have hso := sole_ticker (still hr) t now
    have hsd := sound_of_sole hso (fun _ => hh) hp (fun _ => unarmed hr) hl.gone
    exact ⟨rfl, rfl, hsd, still hr, hso, hp, hp⟩
  | returnedBack hc hp =>
    obtain ⟨rfl, rfl⟩ : q = .closer ∧ op = .release := by simpa using hs
    have hr : l.phase ≠ .released := by simp [hp]
    have hst : Still { l with phase := .released, guard := l.guard.leave .closer } :=
      (still hr).congr (fun _ => rfl) rfl rfl
    have hso := sole_sendRelease (fun q _ => hst q) now
    have hsd := sound_of_sole hso (absurd rfl) rfl (absurd rfl) fun _ => hl.gone (by simp [hc])
    exact ⟨rfl, rfl, hsd, still hr, hso, hp, rfl⟩

theorem opOf_congr (hc : ∀ m, l'.caller? m = l.caller? m) (q : Party) : l'.opOf q = l.opOf q := by
  cases q with
  | caller m =>
    show (l'.caller? m).bind _ = (l.caller? m).bind _
    rw [hc]
  | ticker | closer => rfl

theorem quiet_removeCaller (hn : l.callingSince (.caller n) = none) :
    Quiet l (l.removeCaller n) where
  calling q := by
    rw [callingSince_removeCaller]
    split
    next hq => rw [hq, hn]
    · rfl
  op q hq := by
    cases q with
    | caller m =>
      have hm : m ≠ n := by
        rintro rfl
        exact hq hn
      show ((l.removeCaller n).caller? m).bind _ = (l.caller? m).bind _
      rw [caller?_removeCaller, if_neg hm]
    | ticker | closer => rfl
  phase := .inl rfl
  armed := .inl

theorem quiet_stopTicker (hn : l.callingSince .ticker = none) : Quiet l l.stopTicker where
  calling q := by
    rw [callingSince_stopTicker]
    split
    next hq => rw [hq, hn]
    · rfl
  op q _ := opOf_congr (fun _ => rfl) q
  phase := .inl rfl
  armed := .inl

theorem Arrival.callingSince {l₀ : Locker} (ha : Arrival l now e p l₀) :
    l.callingSince p = none := by
  cases ha with
  | call _ hn =>
    rw [callingSince_caller, hn]
    rfl
  | wake hc hs =>
    rw [callingSince_caller, hc, Option.bind_some, hs]
    rfl
  | tick ht hs =>
    rw [callingSince_ticker, ht, Option.bind_some, hs]
    rfl
  | close hc =>
    rw [callingSince_closer, hc]
    rfl

theorem quiet_arrival {l₀ : Locker} (ha : Arrival l now e p l₀) : Quiet l (l₀.joined p) := by
  have not_waiting := ha.callingSince
  cases ha with
  | @call n verb _ hn =>
    refine ⟨?_, ?_, .inl rfl, .inl⟩
    · intro q
      cases q with
      | caller m =>
        rw [callingSince_joined, callingSince_caller, callingSince_caller, caller?_addCaller hn]
        by_cases hm : m = n
        · subst hm
          rw [if_pos rfl, hn]
          rfl
        · rw [if_neg hm]
      | ticker => exact callingSince_ticker_congr rfl
      | closer => exact callingSince_closer_congr rfl
    · intro q hq
      cases q with
      | caller m =>
        have hm : m ≠ n := by
          rintro rfl
          rw [callingSince_caller, hn] at hq
          exact hq rfl
        show ((l.addCaller n ⟨verb, now, .waiting⟩).caller? m).bind _ = (l.caller? m).bind _
        rw [caller?_addCaller hn, if_neg hm]
      | ticker | closer => rfl
  | @wake n c til hc _ _ =>
    refine ⟨?_, ?_, .inl rfl, .inl⟩
    · intro q
      rw [callingSince_joined, callingSince_moveCaller]
      split
      next hq => rw [hq, not_waiting, hc]; rfl
      · rfl
    · intro q hq
      cases q with
      | caller m =>
        have hm : m ≠ n := by
          rintro rfl
          exact hq not_waiting
        show ((l.moveCaller n .waiting).caller? m).bind _ = (l.caller? m).bind _
        rw [caller?_moveCaller, if_neg hm]
      | ticker | closer => rfl
  | tick =>
    refine ⟨?_, fun q _ => opOf_congr (fun _ => rfl) q, .inl rfl, .inl⟩
    intro q
    cases q with
    | caller m => exact callingSince_caller_congr (fun _ => rfl) m
    | ticker => exact not_waiting.symm
    | closer => exact callingSince_closer_congr rfl
  | close =>
    refine ⟨?_, fun q _ => opOf_congr (fun _ => rfl) q, .inl rfl, by simp [joined]⟩
    intro q
    cases q with
    | caller m => exact callingSince_caller_congr (fun _ => rfl) m
    | ticker => exact callingSince_ticker_congr rfl
    | closer => exact not_waiting.symm

theorem Quiet.sound (hl : Sound l) (hq : Quiet l l')
    (hh : ∀ p, p ≠ .closer → l.callingSince p ≠ none → l'.guard.holder = some p)
    (ha : l'.closer = some .armed → l.closer = some .armed)
    (hg : l'.closer ≠ none → l'.dropped = true) : Sound l' where
  first p hc hp := hh p hc (by rwa [hq.calling] at hp)
  errand h := by
    rw [hq.calling] at h
    obtain ⟨hp, hn⟩ := hl.errand (h.imp_left ha)
    refine ⟨?_, fun p hc => (hq.calling p).trans (hn p hc)⟩
    rcases hq.phase with h | h
    · rw [h, hp]
    · exact h.1
  phase p op hp hop := by
    rw [hq.calling] at hp
    rw [hq.op p hp] at hop
    rcases hq.phase with h | h
    · rw [h, hl.phase p op hp hop]
    · exact absurd (h.2 p) hp
  gone := hg

/-- **A turn that sends nothing out** touches nobody's call. -/
theorem Turn.rests (hl : Sound l) (hh : l.guard.holder = some p) (t : Turn l now p l' fx)
    (hs : ∀ q op, .start q op ∉ fx) : Sound l' ∧ Quiet l l' := by
  have still := t.still hl hh
  have others := t.others hl hh
  have not_waiting := t.not_waiting
  have freed : l.phase = .released ∨ l.phase ≠ .released ∧ l.Still :=
    (em _).imp_right fun h => ⟨h, still h⟩
  cases t with
  | attempted | refreshed | unlocked | ticked | returnedBack => simp at hs
  | served =>
    have hq := quiet_removeCaller not_waiting
    exact ⟨hq.sound hl (fun q hc h => absurd (others q hc) h) id hl.gone, hq⟩
  | @surrendered n c hc _ hv hp =>
    have hq := quiet_removeCaller not_waiting
    have hq' : Quiet l ({ l with phase := .released }.removeCaller n) :=
      ⟨hq.calling, hq.op, freed.imp Eq.symm fun h => ⟨rfl, h.2⟩, .inl⟩
    exact ⟨hq'.sound hl (fun q hc h => absurd (others q hc) h) id hl.gone, hq'⟩
  | ended =>
    have hq := quiet_stopTicker not_waiting
    exact ⟨hq.sound hl (fun q hc h => absurd (others q hc) h) id hl.gone, hq⟩
  | closed hc hp =>
    have hq : Quiet l { l with
        phase := .released, guard := l.guard.leave .closer, closer := none } := by
      refine ⟨?_, fun q _ => opOf_congr (fun _ => rfl) q,
        freed.imp Eq.symm fun h => ⟨rfl, h.2⟩, by simp⟩
      intro q
      cases q with
      | caller m => exact callingSince_caller_congr (fun _ => rfl) m
      | ticker => exact callingSince_ticker_congr rfl
      | closer => exact not_waiting.symm
    exact ⟨hq.sound hl (fun q hc h => absurd (others q hc) h) (by simp) (by simp), hq⟩

/-! ## Answers -/

/-- Nobody else waits for the service. -/
theorem Sound.sole (hl : Sound l) (hp : l.callingSince p ≠ none) :
    ∀ q, q ≠ p → l.callingSince q = none := by
  intro q hqp
  by_contra hq
  by_cases hpc : p = .closer
  · subst hpc
    exact hq ((hl.errand (.inr hp)).2 q hqp)
  by_cases hqc : q = .closer
  · subst hqc
    exact hp ((hl.errand (.inr hq)).2 p hpc)
  · exact hqp (Option.some.inj ((hl.first q hqc hq).symm.trans (hl.first p hpc hp)))

theorem settle_resting {t t' : Ticker} {lease : Duration} {r : Except LockError Unit}
    (h : (t.settle lease now r).2 = some t') : t'.due = t.due ∧ t'.stage = .resting := by
  unfold Ticker.settle at h
  split at h
  · cases h
    exact ⟨rfl, rfl⟩
  · cases h
  · cases h
  · split at h
    · cases h
    · cases h
      exact ⟨rfl, rfl⟩

theorem Heard.opOf {a : Answer} (t : Heard l now p a l' fx) : l.opOf p = some a.op := by
  cases t with
  | granted hc hv | refused hc hv | napped hc hv | refreshed hc hv | released hc hv =>
    simp [Locker.opOf, hc, hv, Answer.op]
  | ticked | closed => rfl

/-- **An answer ends the only call that is out.** -/
theorem Heard.ends (hl : Sound l) (hp : l.callingSince p ≠ none) {a : Answer}
    (t : Heard l now p a l' fx) :
    Sound l' ∧ l'.Still ∧ l'.closer ≠ some .armed ∧ l'.phase = a.leaves l.phase := by
  have sole := hl.sole hp
  have unarmed : p ≠ .closer → l.closer ≠ some .armed :=
    fun hc ha => hp ((hl.errand (.inl ha)).2 p hc)
  cases t with
  | @granted n c hc hv =>
    have hst : Still ({ l with
        phase := .held
        health := .healthy
        ticker := some (.start l.options.interval now) }.removeCaller n) := by
      refine still_removeCaller fun q h => ?_
      cases q with
      | caller m => exact (callingSince_caller_congr (l := l) (fun _ => rfl) m).trans (sole _ h)
      | ticker => rfl
      | closer => exact (callingSince_closer_congr (l := l) rfl).trans (sole _ h)
    exact ⟨sound_of_still hst (unarmed (by simp)) hl.gone, hst, unarmed (by simp), rfl⟩
  | @refused n c r e hc hv hr =>
    have hst := still_removeCaller sole
    exact ⟨sound_of_still hst (unarmed (by simp)) hl.gone, hst, unarmed (by simp),
      (Answer.leaves_of_ne (mt Answer.acquire.inj hr) _).symm⟩
  | @napped n c r til hc hv hr =>
    have hst : (l.moveCaller n (.napping til)).Still := by
      intro q
      rw [callingSince_moveCaller]
      split
      · rw [hc]; rfl
      next h => exact sole q h
    have hst' : Still { l.moveCaller n (.napping til) with guard := l.guard.leave (.caller n) } :=
      hst.congr (fun _ => rfl) rfl rfl
    exact ⟨sound_of_still hst' (unarmed (by simp)) hl.gone, hst', unarmed (by simp),
      (Answer.leaves_of_ne (mt Answer.acquire.inj hr) _).symm⟩
  | @refreshed n c r hc hv | @released n c r hc hv =>
    have hst := still_removeCaller sole
    exact ⟨sound_of_still hst (unarmed (by simp)) hl.gone, hst, unarmed (by simp), rfl⟩
  | @ticked t r ht =>
    have hst : (l.answerTicker now t r).Still := by
      intro q
      cases q with
      | caller m =>
        exact (callingSince_caller_congr (l := l) (fun _ => rfl) m).trans (sole _ (by simp))
      | ticker =>
        rw [callingSince_ticker, answerTicker_eq]
        cases h : (t.settle l.options.lease now r).2 with
        | none => rfl
        | some t' => rw [Option.bind_some, (settle_resting h).2]; rfl
      | closer =>
        exact (callingSince_closer_congr (l := l) rfl).trans (sole _ (by simp))
    exact ⟨sound_of_still hst (unarmed (by simp)) hl.gone, hst, unarmed (by simp), rfl⟩
  | @closed r =>
    have hst : Still { l with closer := none } := by
      intro q
      cases q with
      | caller m =>
        exact (callingSince_caller_congr (l := l) (fun _ => rfl) m).trans (sole _ (by simp))
      | ticker =>
        exact (callingSince_ticker_congr (l := l) rfl).trans (sole _ (by simp))
      | closer => rfl
    exact ⟨sound_of_still hst (by simp) (by simp), hst, by simp, rfl⟩

/-! ## Steps -/

/-- What a step can do to the call that is out. -/
inductive Change (l l' : Locker) (now : Instant) : Event → List Effect → Prop
  | asks {e : Event} {p : Party} {op : Op} : e.isAnswer = false → l.Still → l'.Sole p op now →
      l.phase = op.before ∨ l.closer = some .armed ∧ op = .release →
      Change l l' now e [.start p op]
  | hears {p : Party} {a : Answer} {draw : Nat} {fx : List Effect} : l.callingSince p ≠ none →
      l.opOf p = some a.op → l'.Still → l'.closer ≠ some .armed → l'.phase = a.leaves l.phase →
      Returns fx → Change l l' now (.answer p a draw) fx
  | drops {e : Event} {p : Party} {fx : List Effect} : e.isAnswer = false →
      l.callingSince p ≠ none → l'.Still → l'.closer ≠ some .armed → l'.phase = l.phase →
      Returns fx → Change l l' now e (.cut p :: fx)
  /-- Nobody's call is touched. -/
  | rests {e : Event} {fx : List Effect} : e.isAnswer = false → Quiet l l' → Returns fx →
      Change l l' now e fx

theorem Quiet.trans {l₁ : Locker} (h : Quiet l l₁) (h' : Quiet l₁ l') : Quiet l l' where
  calling q := (h'.calling q).trans (h.calling q)
  op q hq := (h'.op q (by rwa [h.calling])).trans (h.op q hq)
  phase := by
    have still : l₁.Still → l.Still := fun hs q => (h.calling q).symm.trans (hs q)
    rcases h'.phase with h₂ | h₂
    · rw [h₂]
      exact h.phase
    · exact .inr ⟨h₂.1, still h₂.2⟩
  armed ha := by
    rcases h'.armed ha with ha | hp
    · exact h.armed ha
    · rcases h.phase with h₁ | h₁
      · exact .inr (h₁.symm.trans hp)
      · exact absurd (h₁.1.symm.trans hp) (by decide)

theorem before_ne_released (op : Op) : op.before ≠ .released := by
  cases op <;> decide

theorem Arrival.sound {l₀ : Locker} (hl : Sound l) (ha : Arrival l now e p l₀) :
    Sound (l₀.joined p) := by
  have hq := quiet_arrival ha
  have hg : l₀.guard = l.guard := by cases ha <;> rfl
  refine hq.sound hl ?_ ?_ ?_
  · intro q hc h
    show (l₀.guard.join p).holder = some q
    rw [hg]
    exact holder_join (hl.first q hc h) p
  · intro h
    cases ha with
    | call | wake | tick => exact h
    | close => simp [joined] at h
  · intro h
    cases ha with
    | call | wake | tick => exact hl.gone h
    | close hc => exact hl.gone (by simp [hc])

theorem isAnswer_of_arrival {l₀ : Locker} (ha : Arrival l now e p l₀) : e.isAnswer = false := by
  cases ha <;> rfl

theorem Turn.not_cut (t : Turn l now p l' fx) (q : Party) : .cut q ∉ fx := by
  cases t <;> simp

/-- A turn sends a call out, or touches nobody's call. -/
theorem Turn.change (hl : Sound l) (hh : l.guard.holder = some p) (t : Turn l now p l' fx)
    (he : e.isAnswer = false) : Sound l' ∧ Change l l' now e fx := by
  by_cases hs : ∃ q op, .start q op ∈ fx
  · obtain ⟨q, op, hs⟩ := hs
    obtain ⟨rfl, rfl, hsd, hst, hso, hb, -⟩ := t.starts hl hh hs
    exact ⟨hsd, .asks he hst hso (.inl hb)⟩
  · have hr : Returns fx := t.effects.resolve_right fun ⟨op, h⟩ => hs ⟨p, op, by simp [h]⟩
    obtain ⟨hsd, hq⟩ := t.rests hl hh fun q op h => hs ⟨q, op, h⟩
    exact ⟨hsd, .rests he hq hr⟩

theorem Change.after {l₁ : Locker} (h : Quiet l l₁) (c : Change l₁ l' now e fx)
    (he : e.isAnswer = false) (hd : ∀ p, .cut p ∉ fx) : Change l l' now e fx := by
  cases c with
  | @asks e p op _ hst hso hb =>
    refine .asks he (fun q => (h.calling q).symm.trans (hst q)) hso ?_
    rcases hb with hb | ⟨ha, rfl⟩
    · rcases h.phase with hp | hp
      · exact .inl (hp.symm.trans hb)
      · exact absurd (hb.symm.trans hp.1) (before_ne_released op)
    · exact (h.armed ha).symm.imp_right fun ha => ⟨ha, rfl⟩
  | hears => cases he
  | drops => exact absurd List.mem_cons_self (hd _)
  | rests _ hq hr => exact .rests he (h.trans hq) hr

theorem quiet_of_still (hs : l.Still) (hs' : l'.Still)
    (hp : l'.phase = l.phase ∨ l'.phase = .released)
    (ha : l'.closer = some .armed → l.closer = some .armed ∨ l.phase = .held) : Quiet l l' where
  calling q := (hs' q).trans (hs q).symm
  op q hq := absurd (hs q) hq
  phase := hp.imp_right fun h => ⟨h, hs⟩
  armed := ha

theorem still_of_free (hl : Sound l) (hd : l.dropped = false)
    (hg : l.guard.isFree = true) : l.closer = none ∧ l.Still := by
  have hcl : l.closer = none := by
    by_contra h
    exact absurd (hl.gone h) (by simp [hd])
  refine ⟨hcl, ?_⟩
  intro q
  by_cases hq : q = .closer
  · rw [hq, callingSince_closer, hcl]
    rfl
  · by_contra h
    have hf := hl.first q hq h
    have hn : l.guard.line = [] := by simpa [Guard.isFree] using hg
    simp [Guard.holder, hn] at hf

theorem Quiet.drop (hl : Sound l) (hd : l.dropped = false)
    (errands : Bool) : Sound (l.drop errands) ∧ Quiet l (l.drop errands) := by
  unfold Locker.drop
  split
  next hg =>
    obtain ⟨hcl, hst⟩ := still_of_free hl hd hg
    -- the locker is released on the spot; only a held one leaves an errand
    have hgone : Still { l with phase := .released, dropped := true } :=
      hst.congr (fun _ => rfl) rfl rfl
    split
    next hp =>
      have harmed :
          Still { l with phase := .released, dropped := true, closer := some .armed } := by
        intro q
        cases q with
        | caller m => exact (callingSince_caller_congr (fun _ => rfl) m).trans (hst (.caller m))
        | ticker => exact (callingSince_ticker_congr rfl).trans (hst .ticker)
        | closer => rfl
      exact ⟨⟨fun q _ h => absurd (harmed q) h, fun _ => ⟨rfl, fun q _ => harmed q⟩,
        fun q _ h => absurd (harmed q) h, fun _ => rfl⟩,
        quiet_of_still hst harmed (.inr rfl) fun _ => .inr hp⟩
    · have hst' := hgone.stopTicker
      exact ⟨sound_of_still hst' (by simp [hcl, Locker.stopTicker]) fun _ => rfl,
        quiet_of_still hst hst' (.inr rfl) (by simp [hcl, Locker.stopTicker])⟩
    · exact ⟨sound_of_still hgone (by simp [hcl]) fun _ => rfl,
        quiet_of_still hst hgone (.inr rfl) (by simp [hcl])⟩
  · have hcl : l.closer = none := by
      by_contra h
      exact absurd (hl.gone h) (by simp [hd])
    split
    · have hq : Quiet l { l with dropped := true, closer := some .blocked } := by
        refine ⟨?_, fun q _ => opOf_congr (fun _ => rfl) q, .inl rfl, by simp⟩
        intro q
        cases q with
        | caller m => exact callingSince_caller_congr (fun _ => rfl) m
        | ticker => exact callingSince_ticker_congr rfl
        | closer => rw [callingSince_closer, callingSince_closer, hcl]; rfl
      exact ⟨hq.sound hl hl.first (by simp) fun _ => rfl, hq⟩
    · have hq : Quiet l { l with dropped := true } :=
        ⟨callingSince_congr (fun _ => rfl) rfl rfl, fun q _ => opOf_congr (fun _ => rfl) q,
          .inl rfl, .inl⟩
      exact ⟨hq.sound hl hl.first id fun _ => rfl, hq⟩

/-- **A locker asks its service one thing at a time**: a step keeps a locker sound, and sends a call
out, or ends the only one, or touches none. -/
theorem Sound.step (hl : Sound l) (s : Stepped l now e l' fx) :
    Sound l' ∧ Change l l' now e fx := by
  cases s with
  | joined ha =>
    exact ⟨ha.sound hl, .rests (isAnswer_of_arrival ha) (quiet_arrival ha) returns_nil⟩
  | turned ha hh ht =>
    have he := isAnswer_of_arrival ha
    obtain ⟨hsd, hc⟩ := ht.change (ha.sound hl) hh he
    exact ⟨hsd, hc.after (quiet_arrival ha) he ht.not_cut⟩
  | resumed hh ht => exact ht.change hl hh rfl
  | answered hp hh =>
    obtain ⟨hsd, hst, hu, hph⟩ := hh.ends hl hp
    exact ⟨hsd, .hears hp hh.opOf hst hu hph hh.returns⟩
  | @expired p limit op _ _ hp hop hh =>
    obtain ⟨hsd, hst, hu, hph⟩ := hh.ends hl hp
    exact ⟨hsd, .drops rfl hp hst hu (hph.trans (by cases op <;> rfl)) hh.returns⟩
  | @cut n hp =>
    have hst := still_removeCaller (hl.sole hp)
    have hu : l.closer ≠ some .armed := fun ha => hp ((hl.errand (.inl ha)).2 _ (by simp))
    exact ⟨sound_of_still hst hu hl.gone, .drops rfl hp hst hu rfl returns_nil⟩
  | cancelled hp =>
    have hq := quiet_removeCaller hp
    refine ⟨hq.sound hl ?_ id hl.gone, .rests rfl hq returns_nil⟩
    intro q hc h
    apply holder_leave (hl.first q hc h)
    rintro rfl
    exact h hp
  | @lapsed t ht hs _ _ =>
    have hn : l.callingSince .ticker = none := by
      rw [callingSince_ticker, ht, Option.bind_some, hs]
      rfl
    have hq := quiet_stopTicker hn
    refine ⟨hq.sound hl ?_ id hl.gone, .rests rfl hq returns_nil⟩
    intro q hc h
    apply holder_leave (hl.first q hc h)
    rintro rfl
    exact h hn
  | dropped hd =>
    obtain ⟨hsd, hq⟩ := Quiet.drop hl hd _
    exact ⟨hsd, .rests rfl hq returns_nil⟩
  | sent hc =>
    obtain ⟨hp, hn⟩ := hl.errand (.inl hc)
    have hst : l.Still := by
      intro q
      by_cases hq : q = .closer
      · rw [hq, callingSince_closer, hc]
        rfl
      · exact hn q hq
    have hso := sole_sendRelease hn now
    have hd := hl.gone (by simp [hc])
    exact ⟨sound_of_sole hso (absurd rfl) hp (absurd rfl) fun _ => hd,
      .asks rfl hst hso (.inr ⟨hc, rfl⟩)⟩

theorem Run.sound {h : History} (run : Run l h) : Sound l := by
  induction run with
  | made hm => exact (sound_make hm).1
  | step _ _ hs ih => exact (ih.step (stepped_of_step hs)).1

/-! ## What a run tells of its steps -/

/-- A call that goes out goes out alone, from the phase that it needs. -/
theorem Run.sole_of_start {h : History} {op : Op} (run : Run l h)
    (hs : l.step now e = some (l', [.start p op])) :
    Sound l' ∧ l'.Sole p op now ∧ l'.phase = op.during ∧ (l.phase = op.before ∨ op = .release) := by
  obtain ⟨hsd, hc⟩ := run.sound.step (stepped_of_step hs)
  cases hc with
  | asks _ _ hso hb =>
    exact ⟨hsd, hso, hsd.phase p op (by simp [hso.1]) hso.2.1, hb.imp_right (·.2)⟩
  | hears _ _ _ _ _ hr => exact absurd hr not_returns_start
  | rests _ _ hr => exact absurd hr not_returns_start

theorem Sole.exists_answer {op : Op} {t : Instant} {a : Answer} (hso : l.Sole p op t)
    (ha : a.op = op) (draw : Nat) : ∃ l' fx, l.answer now p a draw = some (l', fx) :=
  Locker.exists_answer (by simp [hso.1]) (by rw [hso.2.1, ha]) draw

theorem Run.held_of_held {h : History} (run : Run l h) (he : e.isAnswer = false)
    (hs : l.step now e = some (l', fx)) (hp : l'.phase = .held) : l.phase = .held := by
  obtain ⟨hsd, hc⟩ := run.sound.step (stepped_of_step hs)
  cases hc with
  | @asks _ p op _ _ hso hb =>
    have hd := hsd.phase p op (by simp [hso.1]) hso.2.1
    rw [hp] at hd
    cases op with
    | refresh => exact hb.elim id fun h => by cases h.2
    | acquire | release => cases hd
  | hears => cases he
  | drops _ _ _ _ hph => rw [← hph, hp]
  | rests _ hq =>
    rcases hq.phase with h | h
    · rw [← h, hp]
    · rw [hp] at h
      cases h.1

end Locker

end LeaseLock
