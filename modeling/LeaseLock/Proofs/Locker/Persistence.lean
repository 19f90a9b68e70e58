import LeaseLock.Proofs.Locker.Phases

/-!
# Calls that wait for the lock

**Bids** (`Bid`, `bids`). A call to acquire makes one attempt after another, each when it joins the
line for the guard. An attempt ends when the call finds the locker held or released at its turn,
when the service answers, or when the call to the service is cut off at its bound. All this is read
from the history.

**The end of a bid** (`Entry.verdict?`, `Concludes`). A bid that only met another holder is followed
by a nap, unless the limit of the call has passed; whatever else it comes to, the call returns.

**What a step of the call can be** (`Acquiring`). The one inversion lemma of this module, and what
every rule is read from.

**The series** (`Series`). Every bid but the first follows one that met another holder before the
limit. So only the last one can begin after the limit: by induction over the run, with what the call
is doing now (`Underway`).

Main result: `Run.acquire_rules`.
-/

namespace LeaseLock

/-- What an attempt comes to when the service has answered. -/
def Options.judged (o : Options) : Except LockError Attempt → Except LockError Returned
  | .ok .granted => .ok .done
  | .ok (.occupied owner) => .error (.contended o.name owner)
  | .error e => .error e

/-- How long a call to acquire naps that was made at `start` and has met another holder at `now`: as
long as was drawn, but not beyond its limit. -/
def Options.rest (o : Options) (limit : Option Duration) (start now : Instant) (draw : Nat) :
    Duration :=
  match limit with
  | none => o.nap draw
  | some limit => ⟨min (o.nap draw).nanos (limit.nanos - (now - start))⟩

theorem Duration.clipped_le {start now : Instant} {d nap : Duration} (hle : start ≤ now)
    (hlt : now - start < d.nanos) :
    Duration.after ⟨min nap.nanos (d.nanos - (now - start))⟩ now ≤ d.after start := by
  have hclip := Nat.min_le_right nap.nanos (d.nanos - (now - start))
  refine Nat.le_trans (Nat.add_le_add_left hclip now) (Nat.le_of_eq ?_)
  obtain ⟨k, rfl⟩ := Nat.exists_eq_add_of_le hle
  rw [Nat.add_sub_cancel_left] at hlt ⊢
  rw [Nat.add_assoc, Nat.add_sub_cancel' (Nat.le_of_lt hlt)]
  rfl

namespace Locker

variable {l l₀ l' : Locker} {h : History} {now start t : Instant} {e : Event} {fx : List Effect}
  {p : Party} {n : Nat} {a : Answer} {x : Entry} {o : Options} {limit : Option Duration}
  {r res : Except LockError Returned} {stage : Caller.Stage}

/-! ## Bids -/

/-- One attempt of a call to acquire. -/
structure Bid where
  began : Instant
  /-- When it ended, and what it came to. -/
  outcome : Option (Instant × Except LockError Returned) := none

/-- What the call with the given number returns by this effect. -/
def Effect.result? (n : Nat) : Effect → Option (Except LockError Returned)
  | .returned m r => if m = n then some r else none
  | _ => none

/-- What a bid of the call comes to at this step, if it ends there. -/
def Entry.verdict? (o : Options) (n : Nat) (x : Entry) : Option (Except LockError Returned) :=
  match x.event with
  | .answer p (.acquire r) _ => if p = .caller n then some (o.judged r) else none
  | .expire p =>
    if p = .caller n then o.callTimeout.map fun bound => .error (.timedOut bound) else none
  | _ => x.effects.findSome? (Effect.result? n)

/-- A bid begins when the call is made, and when it wakes up from a nap. -/
def Entry.opened (n : Nat) (x : Entry) (past : List Bid) : List Bid :=
  match x.event with
  | .call m _ => if m = n then [⟨x.time, none⟩] else past
  | .wake m => if m = n then ⟨x.time, none⟩ :: past else past
  | _ => past

/-- The latest bid ends at `now`, and has come to `r`. -/
def endBid (now : Instant) (r : Except LockError Returned) : List Bid → List Bid
  | [] => []
  | b :: bs => { b with outcome := some (now, r) } :: bs

/-- The bids of the latest call with the given number, the latest first. -/
def bids (o : Options) (n : Nat) : History → List Bid
  | [] => []
  | x :: h =>
    match x.verdict? o n with
    | some r => endBid x.time r (x.opened n (bids o n h))
    | none => x.opened n (bids o n h)

theorem bids_cons (o : Options) (n : Nat) (x : Entry) (h : History) :
    bids o n (x :: h) = match x.verdict? o n with
      | some r => endBid x.time r (x.opened n (bids o n h))
      | none => x.opened n (bids o n h) := rfl

/-! ## Limits -/

/-- The attempt only met another holder. -/
def IsContention (r : Except LockError Returned) : Prop :=
  ∃ err, r = .error err ∧ err.isContention = true

/-- The limit of a call that was made at `start` has passed. -/
def Overdue (limit : Option Duration) (start now : Instant) : Prop :=
  ∃ d, limit = some d ∧ d.after start ≤ now

/-- What the call returns when a bid has come to `r`: the same, or that it gives up. -/
inductive Concludes (limit : Option Duration) (start now : Instant) :
    Except LockError Returned → Except LockError Returned → Prop
  | unchanged {r : Except LockError Returned} : ¬IsContention r → Concludes limit start now r r
  | givesUp {r : Except LockError Returned} {d : Duration} : IsContention r → limit = some d →
      d.after start ≤ now → Concludes limit start now r (.error (.timedOut d))

theorem Concludes.overdue (hres : Concludes limit start now r res) (hr : IsContention r) :
    Overdue limit start now := by
  cases hres with
  | unchanged hr' => exact absurd hr hr'
  | givesUp _ hd hover => exact ⟨_, hd, hover⟩

theorem Concludes.unique {res' : Except LockError Returned}
    (hres : Concludes limit start now r res) (hres' : Concludes limit start now r res') :
    res' = res := by
  cases hres with
  | unchanged hr =>
    cases hres' with
    | unchanged => rfl
    | givesUp hr' => exact absurd hr' hr
  | givesUp hr hd =>
    cases hres' with
    | unchanged hr' => exact absurd hr hr'
    | givesUp _ hd' =>
      cases hd.symm.trans hd'
      rfl

/-- The bids of a call that was made at `start`, the latest first: each but the first follows one
that met another holder before the limit. -/
inductive Series (limit : Option Duration) (start : Instant) : List Bid → Prop
  | first {b : Bid} : b.began = start → Series limit start [b]
  | next {b b' : Bid} {bs : List Bid} {t : Instant} {r : Except LockError Returned} :
      Series limit start (b :: bs) → b.outcome = some (t, r) → b.began ≤ t → IsContention r →
      ¬Overdue limit start t → t ≤ b'.began → Series limit start (b' :: b :: bs)

theorem Series.endBid {bs : List Bid} (hb : Series limit start bs) (now : Instant)
    (r : Except LockError Returned) : Series limit start (endBid now r bs) := by
  cases hb with
  | first h => exact .first h
  | next hb ho hle hr hlate ht => exact .next hb ho hle hr hlate ht

theorem Series.exists_cons {bs : List Bid} (hb : Series limit start bs) :
    ∃ b bs', bs = b :: bs' ∧ start ≤ b.began := by
  induction hb with
  | first h => exact ⟨_, _, rfl, Nat.le_of_eq h.symm⟩
  | next _ _ hle _ _ ht ih =>
    obtain ⟨_, _, heq, hstart⟩ := ih
    cases heq
    exact ⟨_, _, rfl, Nat.le_trans hstart (Nat.le_trans hle ht)⟩

/-- **Only the last bid can begin after the limit.** -/
theorem Series.in_time {b : Bid} {bs : List Bid} (hb : Series limit start (b :: bs)) :
    ∀ b' ∈ bs, ¬Overdue limit start b'.began := by
  generalize hbs : b :: bs = bs' at hb
  induction hb generalizing b bs with
  | first h =>
    cases hbs
    exact nofun
  | next _ _ hle _ hlate _ ih =>
    cases hbs
    intro b' hb'
    rcases List.mem_cons.1 hb' with rfl | hb'
    · rintro ⟨d, hd, hover⟩
      exact hlate ⟨d, hd, Nat.le_trans hover hle⟩
    · exact ih rfl b' hb'

/-! ## What a step of the call can be -/

/-- What becomes of the call when a bid has come to `r`. -/
inductive Settles (n : Nat) (limit : Option Duration) (start now : Instant)
    (r : Except LockError Returned) (l' : Locker) : List Effect → Prop
  | concludes {res : Except LockError Returned} : Concludes limit start now r res →
      l'.caller? n = none → Settles n limit start now r l' [.returned n res]
  /-- Another holder was met before the limit. -/
  | naps {til : Instant} : IsContention r → ¬Overdue limit start now →
      l'.caller? n = some ⟨.acquire limit, start, .napping til⟩ →
      (∀ d, limit = some d → til ≤ d.after start) → Settles n limit start now r l' []

/-- What a step of a call to acquire can be that was made at `start`. -/
inductive Acquiring (l : Locker) (n : Nat) (limit : Option Duration) (start now : Instant) :
    Event → Locker → List Effect → Prop
  /-- The call has come to the line, and stands behind others. -/
  | waits {e : Event} {l' : Locker} : (∃ v, e = .call n v) ∨ e = .wake n →
      l'.caller? n = some ⟨.acquire limit, start, .waiting⟩ →
      l'.guard.holder ≠ some (.caller n) → Acquiring l n limit start now e l' []
  | asks {e : Event} {l' : Locker} : (∃ v, e = .call n v) ∨ e = .wake n ∨ e = .resume (.caller n) →
      l.phase = .idle → l'.caller? n = some ⟨.acquire limit, start, .calling now⟩ →
      Acquiring l n limit start now e l' [.start (.caller n) .acquire]
  /-- The locker is held or released, and the service is not asked. -/
  | served {e : Event} {l' : Locker} {r : Except LockError Returned} :
      (∃ v, e = .call n v) ∨ e = .wake n ∨ e = .resume (.caller n) →
      atOnce l.phase (.acquire limit) = some r → l'.caller? n = none →
      Acquiring l n limit start now e l' [.returned n r]
  | answered {r : Except LockError Attempt} {draw : Nat} {l' : Locker} {fx : List Effect} :
      Settles n limit start now (l.options.judged r) l' fx →
      Acquiring l n limit start now (.answer (.caller n) (.acquire r) draw) l' fx
  | expired {bound : Duration} {l' : Locker} {fx : List Effect} :
      l.options.callTimeout = some bound →
      Settles n limit start now (.error (.timedOut bound)) l' fx →
      Acquiring l n limit start now (.expire (.caller n)) l' (.cut (.caller n) :: fx)
  | cancelled {l' : Locker} {fx : List Effect} : l'.caller? n = none →
      fx = [] ∨ fx = [.cut (.caller n)] → Acquiring l n limit start now (.cancel n) l' fx

/-- The call to acquire with the given number was made at `start`, perhaps just now. -/
def MadeAt (l : Locker) (now : Instant) (e : Event) (n : Nat) (limit : Option Duration)
    (start : Instant) : Prop :=
  e = .call n (.acquire limit) ∧ start = now ∨
    (∃ stage, l.caller? n = some ⟨.acquire limit, start, stage⟩) ∧ ∀ v, e ≠ .call n v

theorem Turn.waiting (t : Turn l now (.caller n) l' fx) :
    ∃ c, l.caller? n = some c ∧ c.stage = .waiting := by
  cases t with
  | served hc hs | surrendered hc hs | attempted hc hs | refreshed hc hs | unlocked hc hs =>
    exact ⟨_, hc, hs⟩

/-- The turn of a call to acquire, however the call came to it. -/
theorem Turn.acquiring (t : Turn l₀ now (.caller n) l' fx) (hph : l₀.phase = l.phase)
    (hc : l₀.caller? n = some ⟨.acquire limit, start, .waiting⟩)
    (he : (∃ v, e = .call n v) ∨ e = .wake n ∨ e = .resume (.caller n)) :
    Acquiring l n limit start now e l' fx := by
  have same : ∀ {c}, l₀.caller? n = some c → c = ⟨.acquire limit, start, .waiting⟩ :=
    fun hc' => Option.some.inj (hc'.symm.trans hc)
  cases t with
  | served hc' _ _ hr =>
    cases same hc'
    rw [hph] at hr
    exact .served he hr (caller?_removed l₀ n)
  | surrendered hc' _ hv =>
    cases same hc'
    cases hv
  | attempted _ _ _ hp => exact .asks he (hph.symm.trans hp) (caller?_moved hc _)
  | refreshed hc' _ hop | unlocked hc' _ hop =>
    cases same hc'
    cases hop

theorem Arrival.acquiring (ha : Arrival l now e (.caller n) l₀)
    (hs : l.step now e = some (l', fx)) (hm : MadeAt l now e n limit start) :
    Acquiring l n limit start now e l' fx := by
  have hc : (l₀.joined (.caller n)).caller? n = some ⟨.acquire limit, start, .waiting⟩ := by
    cases ha with
    | @call _ verb _ hn =>
      obtain ⟨hverb, rfl⟩ := hm.resolve_right fun h => h.2 _ rfl
      cases hverb
      exact (caller?_addCaller hn _ n).trans (if_pos rfl)
    | @wake _ c til hc =>
      obtain ⟨⟨stage, hc'⟩, -⟩ := hm.resolve_left nofun
      cases hc.symm.trans hc'
      exact caller?_moved hc .waiting
  have he : (∃ v, e = .call n v) ∨ e = .wake n := by
    cases ha with
    | call => exact .inl ⟨_, rfl⟩
    | wake => exact .inr rfl
  rcases ha.turned_or_waits hs with t | ⟨rfl, rfl, hn⟩
  · exact t.acquiring ha.renewal.1 hc (he.imp_right .inl)
  · exact .waits he hc hn

/-- What becomes of a call to acquire whose attempt has failed. -/
inductive Retried (l : Locker) (now : Instant) (n : Nat) (limit : Option Duration) (start : Instant)
    (err : LockError) (draw : Nat) : Locker → List Effect → Prop
  | fails : err.isContention = false →
      Retried l now n limit start err draw (l.removeCaller n) [.returned n (.error err)]
  | givesUp {d : Duration} : err.isContention = true → limit = some d → d.nanos ≤ now - start →
      Retried l now n limit start err draw (l.removeCaller n) [.returned n (.error (.timedOut d))]
  | naps : err.isContention = true → (∀ d, limit = some d → now - start < d.nanos) →
      Retried l now n limit start err draw
        { l.moveCaller n (.napping ((l.options.rest limit start now draw).after now)) with
          guard := l.guard.leave (.caller n) } []

theorem retried_of_retry {err : LockError} {draw : Nat}
    (hs : l.retry now n ⟨.acquire limit, start, stage⟩ err draw = (l', fx)) :
    Retried l now n limit start err draw l' fx := by
  unfold retry at hs
  simp only at hs
  split at hs
  next hcont =>
    cases limit with
    | none =>
      cases hs
      exact .naps hcont nofun
    | some d =>
      simp only at hs
      split at hs
      next hlate =>
        cases hs
        exact .givesUp hcont rfl hlate
      next hlate =>
        cases hs
        refine .naps hcont ?_
        rintro d' hd
        cases hd
        exact Nat.not_le.1 hlate
  next hcont =>
    cases hs
    exact .fails (Bool.eq_false_iff.2 hcont)

/-- A bid that failed ends the call, or is followed by a nap that ends by the limit. -/
theorem settles_retry {err : LockError} {draw : Nat}
    (hc : l.caller? n = some ⟨.acquire limit, start, stage⟩) (hle : start ≤ now)
    (hs : l.retry now n ⟨.acquire limit, start, stage⟩ err draw = (l', fx)) :
    Settles n limit start now (.error err) l' fx := by
  -- the code compares the time spent with the limit; the statement compares instants
  have hover (d : Duration) : d.nanos ≤ now - start ↔ d.after start ≤ now :=
    Nat.le_sub_iff_add_le' hle
  cases retried_of_retry hs with
  | fails hcont =>
    refine .concludes (.unchanged ?_) (caller?_removed l n)
    rintro ⟨err', herr, hcont'⟩
    cases herr
    cases hcont.symm.trans hcont'
  | givesUp hcont hd hlate =>
    exact .concludes (.givesUp ⟨err, rfl, hcont⟩ hd ((hover _).1 hlate)) (caller?_removed l n)
  | naps hcont hleft =>
    refine .naps ⟨err, rfl, hcont⟩ ?_ (caller?_moved hc (.napping _)) ?_
    · rintro ⟨d, hd, hle'⟩
      exact absurd ((hover d).2 hle') (Nat.not_le.2 (hleft d hd))
    · rintro d rfl
      exact Duration.clipped_le hle (hleft d rfl)

theorem not_isContention_ok (s : Returned) : ¬IsContention (.ok s) := by
  rintro ⟨err, herr, -⟩
  cases herr

theorem attempt_of_answer {draw : Nat} (hc : l.caller? n = some ⟨.acquire limit, start, stage⟩)
    (hs : l.answer now (.caller n) a draw = some (l', fx)) :
    a = .acquire (.ok .granted) ∧ l'.caller? n = none ∧ fx = [.returned n (.ok .done)] ∨
      ∃ r err, a = .acquire r ∧ l.options.judged r = .error err ∧
        l.retry now n ⟨.acquire limit, start, stage⟩ err draw = (l', fx) := by
  unfold answer at hs
  split at hs
  · cases hs
  · simp only [hc, Option.bind_some] at hs
    unfold answerCaller at hs
    split at hs
    · cases hs
    next hop =>
      have hop := Option.some.inj (Decidable.of_not_not hop)
      cases a with
      | acquire r =>
        cases r with
        | error err => exact .inr ⟨_, err, rfl, rfl, Option.some.inj hs⟩
        | ok x =>
          cases x with
          | granted =>
            cases Option.some.inj hs
            exact .inl ⟨rfl, caller?_removed _ n, rfl⟩
          | occupied owner => exact .inr ⟨_, _, rfl, rfl, Option.some.inj hs⟩
      | refresh | release => cases hop

theorem settles_of_answer {draw : Nat} (hc : l.caller? n = some ⟨.acquire limit, start, stage⟩)
    (hle : start ≤ now) (hs : l.answer now (.caller n) a draw = some (l', fx)) :
    ∃ r, a = .acquire r ∧ Settles n limit start now (l.options.judged r) l' fx := by
  rcases attempt_of_answer hc hs with ⟨rfl, hgone, rfl⟩ | ⟨r, err, rfl, hr, hretry⟩
  · exact ⟨_, rfl, .concludes (.unchanged (not_isContention_ok _)) hgone⟩
  · exact ⟨r, rfl, hr ▸ settles_retry hc hle hretry⟩

/-- **Every step of a call to acquire** is one of these. -/
theorem acquiring_of_step (hs : Locker.step now l e = some (l', fx))
    (hp : e.party? = some (.caller n)) (hm : MadeAt l now e n limit start) (hle : start ≤ now) :
    Acquiring l n limit start now e l' fx := by
  cases stepped_of_step hs with
  | joined ha | turned ha =>
    cases ha.party.symm.trans hp
    exact ha.acquiring hs hm
  | resumed _ t =>
    cases hp
    obtain ⟨⟨stage, hc⟩, -⟩ := hm.resolve_left nofun
    obtain ⟨c, hc', hw⟩ := t.waiting
    cases hc.symm.trans hc'
    cases hw
    exact t.acquiring rfl hc (.inr (.inr rfl))
  | answered =>
    cases hp
    obtain ⟨⟨stage, hc⟩, -⟩ := hm.resolve_left nofun
    obtain ⟨r, rfl, hr⟩ := settles_of_answer hc hle hs
    exact .answered hr
  | expired =>
    cases hp
    obtain ⟨⟨stage, hc⟩, -⟩ := hm.resolve_left nofun
    obtain ⟨bound, op, fx', hbound, -, hfx, ha⟩ := answer_of_expire hs
    cases hfx
    obtain ⟨r, hr, hset⟩ := settles_of_answer hc hle ha
    cases op <;> cases hr
    exact .expired hbound hset
  | cut =>
    cases hp
    exact .cancelled (caller?_removed l n) (.inr rfl)
  | cancelled =>
    cases hp
    exact .cancelled (caller?_removed l n) (.inl rfl)
  | lapsed | dropped | sent => cases hp

/-! ## Steps of others -/

theorem findSome?_result? (hr : ∀ r, .returned n r ∉ fx) :
    fx.findSome? (Effect.result? n) = none := by
  rw [List.findSome?_eq_none_iff]
  intro y hy
  cases y with
  | start | cut => rfl
  | returned m r =>
    refine if_neg ?_
    rintro rfl
    exact hr r hy

theorem bids_cons_of_ne (hp : e.party? ≠ some (.caller n)) (hr : ∀ r, .returned n r ∉ fx)
    (o : Options) (h : History) : bids o n (⟨now, e, fx⟩ :: h) = bids o n h := by
  have hopened : Entry.opened n ⟨now, e, fx⟩ (bids o n h) = bids o n h := by
    cases e with
    | call m | wake m =>
      refine if_neg ?_
      rintro rfl
      exact hp rfl
    | resume | answer | expire | cancel | tick | drop | close => rfl
  have hverdict : Entry.verdict? o n ⟨now, e, fx⟩ = none := by
    have hfx := findSome?_result? hr
    cases e with
    | answer p a draw =>
      cases a with
      | acquire r => exact if_neg fun h => hp (congrArg some h)
      | refresh | release => exact hfx
    | expire p => exact if_neg fun h => hp (congrArg some h)
    | call | resume | cancel | wake | tick | drop | close => exact hfx
  rw [bids_cons, hopened, hverdict]

/-! ## The series of a run -/

/-- What is known of a call to acquire that is under way at `t`. -/
structure Underway (limit : Option Duration) (start t : Instant) (stage : Caller.Stage)
    (bs : List Bid) : Prop where
  series : Series limit start bs
  began : ∀ b ∈ bs.head?, b.began ≤ t
  /-- A call naps only when it has met another holder before the limit. -/
  met : ∀ til, stage = .napping til → ∃ b bs' u r, bs = b :: bs' ∧ b.outcome = some (u, r) ∧
    b.began ≤ u ∧ u ≤ t ∧ IsContention r ∧ ¬Overdue limit start u

theorem Underway.start_le {bs : List Bid} (hu : Underway limit start t stage bs) : start ≤ t := by
  obtain ⟨b, bs', rfl, hle⟩ := hu.series.exists_cons
  exact Nat.le_trans hle (hu.began b rfl)

theorem Underway.mono {bs : List Bid} (hu : Underway limit start t stage bs) (ht : t ≤ now) :
    Underway limit start now stage bs where
  series := hu.series
  began b hb := Nat.le_trans (hu.began b hb) ht
  met til hstage := by
    obtain ⟨b, bs', u, r, hbs, ho, hle, hu, hr, hlate⟩ := hu.met til hstage
    exact ⟨b, bs', u, r, hbs, ho, hle, Nat.le_trans hu ht, hr, hlate⟩

theorem napping_of_wake (hs : Locker.step now l (.wake n) = some (l', fx)) :
    ∃ c til, l.caller? n = some c ∧ c.stage = .napping til ∧ til ≤ now := by
  cases stepped_of_step hs with
  | joined ha | turned ha =>
    cases ha with
    | wake hc hstage hle => exact ⟨_, _, hc, hstage, hle⟩

/-- A step of the call begins its first bid, or another one after a nap, or none. -/
theorem opened_cases (hs : Locker.step now l e = some (l', fx)) (hm : MadeAt l now e n limit start)
    (past : List Bid) :
    start = now ∧ Entry.opened n ⟨now, e, fx⟩ past = [⟨now, none⟩] ∨
      (∃ til, l.caller? n = some ⟨.acquire limit, start, .napping til⟩ ∧ til ≤ now ∧
        Entry.opened n ⟨now, e, fx⟩ past = ⟨now, none⟩ :: past) ∨
      ∃ stage, l.caller? n = some ⟨.acquire limit, start, stage⟩ ∧
        Entry.opened n ⟨now, e, fx⟩ past = past := by
  rcases hm with ⟨rfl, rfl⟩ | ⟨⟨stage, hc⟩, hne⟩
  · exact .inl ⟨rfl, if_pos rfl⟩
  by_cases he : e = .wake n
  · subst he
    obtain ⟨c, til, hc', hstage, hle⟩ := napping_of_wake hs
    cases hc.symm.trans hc'
    cases hstage
    exact .inr (.inl ⟨til, hc, hle, if_pos rfl⟩)
  · refine .inr (.inr ⟨stage, hc, ?_⟩)
    cases e with
    | call m v =>
      refine if_neg ?_
      rintro rfl
      exact hne v rfl
    | wake m =>
      refine if_neg ?_
      rintro rfl
      exact he rfl
    | resume | answer | expire | cancel | tick | drop | close => rfl

/-- The bids are a series when the step has begun one, if it does. -/
theorem series_opened (ht : t ≤ now) (hs : Locker.step now l e = some (l', fx))
    (hm : MadeAt l now e n limit start)
    (hu : ∀ stage, l.caller? n = some ⟨.acquire limit, start, stage⟩ →
      Underway limit start t stage (bids o n h)) :
    Series limit start (Entry.opened n ⟨now, e, fx⟩ (bids o n h)) ∧
      ∀ b ∈ (Entry.opened n ⟨now, e, fx⟩ (bids o n h)).head?, b.began ≤ now := by
  rcases opened_cases hs hm (bids o n h) with ⟨rfl, heq⟩ | ⟨til, hc, -, heq⟩ | ⟨stage, hc, heq⟩ <;>
    rw [heq]
  · refine ⟨.first rfl, ?_⟩
    rintro b ⟨⟩
    exact Nat.le_refl _
  · have under := (hu _ hc).mono ht
    obtain ⟨b, bs', u, r, hbs, ho, hle, hut, hr, hlate⟩ := under.met til rfl
    refine ⟨hbs ▸ .next (hbs ▸ under.series) ho hle hr hlate hut, ?_⟩
    rintro b ⟨⟩
    exact Nat.le_refl _
  · have under := (hu stage hc).mono ht
    exact ⟨under.series, under.began⟩

theorem not_isContention_atOnce (hr : atOnce l.phase (.acquire limit) = some r) :
    ¬IsContention r := by
  rintro ⟨err, rfl, hcont⟩
  cases hp : l.phase <;> rw [hp] at hr <;> cases hr
  cases hcont

/-- A step ends no bid and leaves the call awake, or it ends one, which settles the call. -/
theorem Acquiring.outcome (s : Acquiring l n limit start now e l' fx) :
    (Entry.verdict? l.options n ⟨now, e, fx⟩ = none ∧ (∀ res, .returned n res ∉ fx) ∧
      ∀ c, l'.caller? n = some c →
        c.verb = .acquire limit ∧ c.began = start ∧ ∀ til, c.stage ≠ .napping til) ∨
    ∃ r, Entry.verdict? l.options n ⟨now, e, fx⟩ = some r ∧
      ∃ fx', Settles n limit start now r l' fx' ∧ (fx = fx' ∨ fx = .cut (.caller n) :: fx') := by
  cases s with
  | waits he hc =>
    refine .inl ⟨?_, nofun, ?_⟩
    · rcases he with ⟨v, rfl⟩ | rfl <;> rfl
    · intro c hc'
      cases hc.symm.trans hc'
      exact ⟨rfl, rfl, nofun⟩
  | asks he _ hc =>
    refine .inl ⟨?_, by simp, ?_⟩
    · rcases he with ⟨v, rfl⟩ | rfl | rfl <;> rfl
    · intro c hc'
      cases hc.symm.trans hc'
      exact ⟨rfl, rfl, nofun⟩
  | @served e _ r he hr hc =>
    have hfx : [Effect.returned n r].findSome? (Effect.result? n) = some r := by
      simp [Effect.result?]
    refine .inr ⟨r, ?_, _, .concludes (.unchanged (not_isContention_atOnce hr)) hc, .inl rfl⟩
    rcases he with ⟨v, rfl⟩ | rfl | rfl <;> exact hfx
  | answered hset => exact .inr ⟨_, if_pos rfl, _, hset, .inl rfl⟩
  | expired hbound hset =>
    refine .inr ⟨_, (if_pos rfl).trans ?_, _, hset, .inr rfl⟩
    rw [hbound]
    rfl
  | cancelled hc hfx =>
    refine .inl ⟨?_, ?_, ?_⟩
    · rcases hfx with rfl | rfl <;> rfl
    · rcases hfx with rfl | rfl <;> simp
    · intro c hc'
      cases hc.symm.trans hc'

/-- **A step of the call goes on with the series**, and the call naps only when it should. -/
theorem Underway.step (ht : t ≤ now) (hs : Locker.step now l e = some (l', fx))
    (hp : e.party? = some (.caller n)) (hm : MadeAt l now e n limit start) (hle : start ≤ now)
    (hu : ∀ stage, l.caller? n = some ⟨.acquire limit, start, stage⟩ →
      Underway limit start t stage (bids l.options n h)) :
    Series limit start (bids l.options n (⟨now, e, fx⟩ :: h)) ∧
      ∀ c, l'.caller? n = some c → c.verb = .acquire limit ∧ c.began = start ∧
        Underway limit start now c.stage (bids l.options n (⟨now, e, fx⟩ :: h)) := by
  obtain ⟨hser, hbegan⟩ :
      Series limit start (Entry.opened n ⟨now, e, fx⟩ (bids l.options n h)) ∧ _ :=
    series_opened ht hs hm hu
  rcases (acquiring_of_step hs hp hm hle).outcome with ⟨hv, -, hc⟩ | ⟨r, hv, fx', hset, -⟩
  · rw [bids_cons, hv]
    refine ⟨hser, ?_⟩
    intro c hc'
    obtain ⟨hverb, hstart, hawake⟩ := hc c hc'
    exact ⟨hverb, hstart, hser, hbegan, fun til hstage => absurd hstage (hawake til)⟩
  · rw [bids_cons, hv]
    refine ⟨hser.endBid now r, ?_⟩
    intro c hc'
    cases hset with
    | concludes _ hgone => cases hgone.symm.trans hc'
    | @naps til hr hlate hnap =>
      cases hnap.symm.trans hc'
      obtain ⟨b, bs', hbs, -⟩ := hser.exists_cons
      have hb : b.began ≤ now := hbegan b (by simp [hbs])
      refine ⟨rfl, rfl, hser.endBid now r, ?_, ?_⟩
      · rw [hbs]
        rintro b' ⟨⟩
        exact hb
      · intro _ _
        rw [hbs]
        exact ⟨_, bs', now, r, rfl, rfl, hb, Nat.le_refl _, hr, hlate⟩

/-- The call that makes a step, if it is one to acquire, was made at some instant. -/
theorem Stepped.exists_madeAt (s : Stepped l now e l' fx) {c : Caller}
    (hc : l'.caller? n = some c) (hv : c.verb = .acquire limit) :
    ∃ start, MadeAt l now e n limit start := by
  rcases s.wishes hc with rfl | ⟨⟨⟨verb, began, stage⟩, hc', hv'⟩, hne⟩
  · exact ⟨now, .inl ⟨by rw [hv], rfl⟩⟩
  · rw [hv] at hv'
    cases hv'
    exact ⟨began, .inr ⟨⟨stage, hc'⟩, hne⟩⟩

/-- **A call to acquire that is under way has made a series of bids.** -/
theorem Run.underway (run : Run l h)
    (hc : l.caller? n = some ⟨.acquire limit, start, stage⟩) :
    Underway limit start (latest h) stage (bids l.options n h) := by
  induction run generalizing limit start stage with
  | made hm =>
    obtain ⟨-, rfl⟩ := make_eq_ok_iff.1 hm
    cases hc
  | @step l l' h now e fx run ht hs ih =>
    have st := stepped_of_step hs
    rw [st.options]
    by_cases hp : e.party? = some (.caller n)
    · obtain ⟨start', hm⟩ := st.exists_madeAt hc rfl
      have hle : start' ≤ now := by
        rcases hm with ⟨-, rfl⟩ | ⟨⟨stage', hc'⟩, -⟩
        · exact Nat.le_refl _
        · exact Nat.le_trans (ih hc').start_le ht
      obtain ⟨-, hunder⟩ := Underway.step ht hs hp hm hle fun _ => ih
      obtain ⟨-, rfl, hu⟩ := hunder _ hc
      exact hu
    · rw [bids_cons_of_ne hp (fun r hr => hp (st.returned hr))]
      exact (ih ((st.caller?_of_ne hp).symm.trans hc)).mono ht

/-! ## The rules -/

/-- What a step of a call to acquire does that was made at `start`. -/
structure AcquireRules (l : Locker) (h : History) (n : Nat) (limit : Option Duration)
    (start : Instant) (x : Entry) (l' : Locker) : Prop where
  /-- The bids so far: the first began with the call, and each other one after a bid that met
  another holder before the limit. -/
  series : Series limit start (bids l.options n (x :: h))
  /-- Only the latest one may have begun after the limit. -/
  in_time : ∀ b ∈ (bids l.options n (x :: h)).tail, ¬Overdue limit start b.began
  /-- A bid that begins, or gets its turn, stands in line, asks the service or is served at once. -/
  goes_on : (∃ v, x.event = .call n v) ∨ x.event = .wake n ∨ x.event = .resume (.caller n) →
    l'.guard.holder ≠ some (.caller n) ∧ x.effects = [] ∨
      l.phase = .idle ∧ x.effects = [.start (.caller n) .acquire] ∨
      ∃ r, atOnce l.phase (.acquire limit) = some r ∧ x.effects = [.returned n r]
  /-- The call returns when a bid ends: what it came to, or that the call gives up. -/
  returns : ∀ res, .returned n res ∈ x.effects ↔
    ∃ r, x.verdict? l.options n = some r ∧ Concludes limit start x.time r res
  /-- It is over then. -/
  leaves : ∀ res, .returned n res ∈ x.effects → l'.caller? n = none
  /-- Another holder was met before the limit: the call naps, and no longer than to the limit. -/
  naps : ∀ r, x.verdict? l.options n = some r → IsContention r → ¬Overdue limit start x.time →
    ∃ til, l'.caller? n = some ⟨.acquire limit, start, .napping til⟩ ∧
      ∀ d, limit = some d → til ≤ d.after start

theorem Settles.returns (s : Settles n limit start now r l' fx) :
    (∀ res, .returned n res ∈ fx ↔ Concludes limit start now r res) ∧
      (∀ res, .returned n res ∈ fx → l'.caller? n = none) ∧
      (IsContention r → ¬Overdue limit start now →
        ∃ til, l'.caller? n = some ⟨.acquire limit, start, .napping til⟩ ∧
          ∀ d, limit = some d → til ≤ d.after start) := by
  cases s with
  | concludes hres hgone =>
    refine ⟨?_, fun _ _ => hgone, fun hr hlate => absurd (hres.overdue hr) hlate⟩
    intro res'
    simp only [List.mem_singleton, Effect.returned.injEq, true_and]
    constructor
    · rintro rfl
      exact hres
    · exact hres.unique
  | naps hr hlate hnap hclip =>
    refine ⟨?_, nofun, fun _ _ => ⟨_, hnap, hclip⟩⟩
    exact fun res => iff_of_false nofun fun hres => hlate (hres.overdue hr)

theorem Acquiring.goes_on (s : Acquiring l n limit start now e l' fx)
    (he : (∃ v, e = .call n v) ∨ e = .wake n ∨ e = .resume (.caller n)) :
    l'.guard.holder ≠ some (.caller n) ∧ fx = [] ∨
      l.phase = .idle ∧ fx = [.start (.caller n) .acquire] ∨
      ∃ r, atOnce l.phase (.acquire limit) = some r ∧ fx = [.returned n r] := by
  cases s with
  | waits _ _ hn => exact .inl ⟨hn, rfl⟩
  | asks _ hp => exact .inr (.inl ⟨hp, rfl⟩)
  | served _ hr => exact .inr (.inr ⟨_, hr, rfl⟩)
  | answered | expired | cancelled => rcases he with ⟨v, he⟩ | he | he <;> cases he

theorem Run.start_le (run : Run l h) (ht : latest h ≤ now) (hm : MadeAt l now e n limit start) :
    start ≤ now := by
  rcases hm with ⟨-, rfl⟩ | ⟨⟨stage, hc⟩, -⟩
  · exact Nat.le_refl _
  · exact Nat.le_trans (run.underway hc).start_le ht

theorem Run.acquireRules (run : Run l h) (ht : latest h ≤ now)
    (hs : Locker.step now l e = some (l', fx)) (hp : e.party? = some (.caller n))
    (hm : MadeAt l now e n limit start) :
    AcquireRules l h n limit start ⟨now, e, fx⟩ l' := by
  have hle := run.start_le ht hm
  have hacq := acquiring_of_step hs hp hm hle
  obtain ⟨hser, -⟩ := Underway.step ht hs hp hm hle fun _ => run.underway
  have hlast : ∀ b ∈ (bids l.options n (⟨now, e, fx⟩ :: h)).tail, ¬Overdue limit start b.began := by
    obtain ⟨b, bs, hbs, -⟩ := hser.exists_cons
    rw [hbs] at hser ⊢
    exact hser.in_time
  rcases hacq.outcome with ⟨hv, hr, -⟩ | ⟨r, hv, fx', hset, hfx⟩
  · refine ⟨hser, hlast, hacq.goes_on, ?_, fun res h' => absurd h' (hr res), by simp [hv]⟩
    intro res
    exact iff_of_false (hr res) (by simp [hv])
  · have hmem : ∀ res, .returned n res ∈ fx ↔ .returned n res ∈ fx' := by
      intro res
      rcases hfx with rfl | rfl <;> simp
    obtain ⟨hres, hover, hnaps⟩ := hset.returns
    refine ⟨hser, hlast, hacq.goes_on, ?_, ?_, ?_⟩
    · intro res
      rw [hmem, hres, hv]
      simp
    · intro res h'
      exact hover res ((hmem res).1 h')
    · intro r' hv' hr hlate
      cases hv.symm.trans hv'
      exact hnaps hr hlate

/-! ## Nothing is missed -/

/-- What a call to acquire that is under way waits for can always happen, and a nap ends by
itself. -/
structure Heeded (l : Locker) (n : Nat) (stage : Caller.Stage) : Prop where
  wakes : ∀ til, stage = .napping til → (til, .wake n) ∈ l.agenda ∧
    ∀ now, til ≤ now → ∃ l' fx, Locker.step now l (.wake n) = some (l', fx)
  /-- It gets its turn as soon as it is first in the line. -/
  resumes : stage = .waiting → l.guard.holder = some (.caller n) →
    ∀ now, ∃ l' fx, Locker.step now l (.resume (.caller n)) = some (l', fx)
  /-- It hears whatever the service answers. -/
  answers : ∀ since, stage = .calling since → ∀ now r draw,
    ∃ l' fx, Locker.step now l (.answer (.caller n) (.acquire r) draw) = some (l', fx)

theorem heeded (hc : l.caller? n = some ⟨.acquire limit, start, stage⟩) : Heeded l n stage where
  wakes til hstage := by
    subst hstage
    constructor
    · obtain ⟨before, after, hl, -⟩ := List.lookup_eq_some_iff.1 hc
      have hmem : (n, ⟨.acquire limit, start, .napping til⟩) ∈ l.callers := by
        rw [hl]
        exact List.mem_append_right _ List.mem_cons_self
      have hagenda : (til, .wake n) ∈ l.callerAgenda := List.mem_filterMap.2 ⟨_, hmem, rfl⟩
      exact List.mem_append_left _ (List.mem_append_right _ hagenda)
    · intro now hle
      exact ⟨_, _, (Arrival.wake hc rfl hle).step_eq⟩
  resumes hstage hh now := by
    subst hstage
    refine ⟨_, _, (?_ : l.proceed now (.caller n) = some (l.enterCaller now n (.acquire limit)))⟩
    unfold proceed
    rw [if_neg (by simp [hh])]
    simp only [hc]
  answers since hstage now r draw := by
    subst hstage
    refine exists_answer ?_ ?_ draw
    · rw [callingSince_caller, hc]
      exact nofun
    · show (l.caller? n).bind _ = _
      rw [hc]
      rfl

/-- **What a call to acquire does**, whatever the service answers and however long it takes, for
every limit and however long the naps are. The call makes its first attempt at once. It makes
another one exactly when an attempt has met another holder before the limit had passed: then it
naps, at most to the limit, and wakes up by itself. When an attempt comes to anything else, the call
returns that, unchanged. It gives up only when an attempt has met another holder at the limit or
later, and then at once. So at most one attempt begins at the limit or later: the last one. -/
theorem Run.acquire_rules (run : Run l h) (n : Nat) (limit : Option Duration) :
    (∀ now, l.dropped = false → l.caller? n = none →
      ∃ l' fx, Locker.step now l (.call n (.acquire limit)) = some (l', fx)) ∧
      (∀ start stage, l.caller? n = some ⟨.acquire limit, start, stage⟩ → Heeded l n stage) ∧
      ∀ now e l' fx start, latest h ≤ now → Locker.step now l e = some (l', fx) →
        e.party? = some (.caller n) → MadeAt l now e n limit start →
        AcquireRules l h n limit start ⟨now, e, fx⟩ l' := by
  refine ⟨?_, fun _ _ => heeded, fun _ _ _ _ _ => run.acquireRules⟩
  intro now hd hn
  exact ⟨_, _, (Arrival.call hd hn).step_eq⟩

/-- A call with a limit of 100 ms meets another holder after 30 ms. Its nap is clipped, and it makes
another attempt at the limit. -/
def lastBid : List (Instant × Event) :=
  [(0, .call 0 (.acquire (some (.ofMillis 100)))),
    (30000000, .answer (.caller 0) (.acquire (.ok (.occupied (some "b")))) 400),
    (100000000, .wake 0)]

/-- The locker that comes out of it. -/
def bidding : Locker where
  options := ownedByA
  guard := ⟨[.caller 0]⟩
  callers := [(0, ⟨.acquire (some (.ofMillis 100)), 0, .calling 100000000⟩)]

/-- The last attempt meets another holder too. -/
def refusal : Event := .answer (.caller 0) (.acquire (.ok (.occupied (some "b")))) 0

theorem acquire_rules_lastBid :
    ∃ h, Run bidding h ∧ (bids ownedByA 0 h).map Bid.began = [100000000, 0] ∧
      Heeded bidding 0 (.calling 100000000) ∧
      ∃ l' fx, Locker.step 101000000 bidding refusal = some (l', fx) ∧
        AcquireRules bidding h 0 (some (.ofMillis 100)) 0 ⟨101000000, refusal, fx⟩ l' ∧
        .returned 0 (.error (.timedOut (.ofMillis 100))) ∈ fx := by
  have made : Run { options := ownedByA } [] := .made (make_eq_ok_iff.2 ⟨rfl, rfl⟩)
  obtain ⟨h, run, hle, hbids⟩ : ∃ h, Run bidding h ∧ latest h = 100000000 ∧
      (bids ownedByA 0 h).map Bid.began = [100000000, 0] :=
    ⟨_, made.replay (Option.some_get (x := replay ({ options := ownedByA }, []) lastBid) rfl).symm,
      rfl, rfl⟩
  obtain ⟨-, heeds, rules⟩ := run.acquire_rules 0 (some (.ofMillis 100))
  refine ⟨h, run, hbids, heeds 0 _ rfl, _, _, rfl, ?_, List.mem_cons_self⟩
  have later : latest h ≤ 101000000 := by
    rw [hle]
    decide
  exact rules 101000000 refusal _ _ 0 later rfl rfl (.inr ⟨⟨_, rfl⟩, nofun⟩)

end Locker

end LeaseLock
