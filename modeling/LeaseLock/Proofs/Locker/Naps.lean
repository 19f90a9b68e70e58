import LeaseLock.Proofs.Locker.Persistence
import LeaseLock.Proofs.Options

/-!
# Naps between attempts

**What is drawn** (`Options.Usable.exists_nap_iff`). A nap is a whole number of milliseconds. Both
bounds of the options lose what they have beyond that, so no nap is above the upper one, but the
shortest (`Options.leastNap`) may be below the lower one.

**When a nap ends** (`til_of_step`). A call that has met another holder rests as long as was drawn,
but not beyond its limit.

**Apart** (`Spaced`, `KeepsApart`). Each bid of a call begins some time after the end of the one
before, or at the limit. By induction over the run, with what is known of a call under way
(`Paced`): while it naps, its latest bid has ended, and the nap is a rest from there. The other way
round, a call that naps once shows that nothing more can be promised (`le_of_keepsApart`).

Main result: `naps_within_bounds`.
-/

namespace LeaseLock

namespace Duration

variable {d : Duration} {n : Nat}

/-- The whole milliseconds, cut at 64 bits. -/
def millis64 (d : Duration) : Nat := min d.millis maxUInt64

theorem ofMillis_le_iff : ofMillis n ≤ d ↔ n ≤ d.millis :=
  (Nat.le_div_iff_mul_le (by decide)).symm

theorem after_mono {rest : Duration} (hd : d ≤ rest) (t : Instant) : d.after t ≤ rest.after t :=
  Nat.add_le_add_left hd t

end Duration

namespace Options

variable {o : Options} {d : Duration}

/-! ## How long a nap is -/

/-- The shortest nap that is drawn. -/
def leastNap (o : Options) : Duration := .ofMillis o.minNap.millis64

theorem nap_eq (o : Options) (draw : Nat) :
    o.nap draw =
      .ofMillis (o.minNap.millis64 + draw % (o.maxNap.millis64 - o.minNap.millis64 + 1)) := rfl

theorem nap_zero (o : Options) : o.nap 0 = o.leastNap := by
  simp [nap_eq, leastNap]

theorem leastNap_le_nap (o : Options) (draw : Nat) : o.leastNap ≤ o.nap draw :=
  Nat.mul_le_mul_right _ (Nat.le_add_right ..)

theorem Usable.millis64_le (h : o.Usable) : o.minNap.millis64 ≤ o.maxNap.millis64 :=
  Nat.le_min.2 ⟨Nat.le_trans (Nat.min_le_left ..) (Nat.div_le_div_right h.naps),
    Nat.min_le_right ..⟩

/-- **What is drawn**: any whole number of milliseconds between the bounds, and no other. -/
theorem Usable.exists_nap_iff (h : o.Usable) :
    (∃ draw, o.nap draw = d) ↔
      ∃ k, o.minNap.millis64 ≤ k ∧ k ≤ o.maxNap.millis64 ∧ d = .ofMillis k := by
  have hle := h.millis64_le
  simp only [nap_eq]
  generalize o.minNap.millis64 = low at hle ⊢
  generalize o.maxNap.millis64 = high at hle ⊢
  constructor
  · rintro ⟨draw, rfl⟩
    have hlt := Nat.mod_lt draw (show 0 < high - low + 1 from Nat.succ_pos _)
    exact ⟨_, Nat.le_add_right .., by omega, rfl⟩
  · rintro ⟨k, hlow, hhigh, rfl⟩
    refine ⟨k - low, congrArg Duration.ofMillis ?_⟩
    rw [Nat.mod_eq_of_lt (by omega)]
    omega

theorem Usable.nap_le (h : o.Usable) (draw : Nat) : o.nap draw ≤ o.maxNap := by
  obtain ⟨k, -, hhigh, hk⟩ := h.exists_nap_iff.1 ⟨draw, rfl⟩
  rw [hk]
  exact Duration.ofMillis_le_iff.2 (Nat.le_trans hhigh (Nat.min_le_left ..))

/-- The shortest nap falls short of the lower bound, unless the bound is a whole number of
milliseconds that fits in 64 bits. -/
theorem minNap_le_leastNap_iff :
    o.minNap ≤ o.leastNap ↔
      Duration.perMilli ∣ o.minNap.nanos ∧ o.minNap.millis ≤ maxUInt64 := by
  show o.minNap.nanos ≤ min (o.minNap.nanos / Duration.perMilli) maxUInt64 * Duration.perMilli ↔ _
  simp only [Duration.millis, Duration.perMilli]
  omega

end Options

namespace Locker

variable {l l' : Locker} {h : History} {now start til : Nat} {e : Event} {fx : List Effect}
  {n draw : Nat} {a : Answer} {o : Options} {limit : Option Duration} {c : Caller}
  {d : Duration} {stage : Caller.Stage}

/-! ## When a nap ends -/

theorem til_of_answer (hc : l.caller? n = some ⟨.acquire limit, start, stage⟩)
    (hs : l.answer now (.caller n) a draw = some (l', fx))
    (hn : l'.caller? n = some c) (hnap : c.stage = .napping til) :
    (∀ lim, limit = some lim → now - start < lim.nanos) ∧
      til = (l.options.rest limit start now draw).after now := by
  rcases attempt_of_answer hc hs with ⟨-, hgone, -⟩ | ⟨r, err, -, -, hretry⟩
  · cases hgone.symm.trans hn
  cases retried_of_retry hretry with
  | fails | givesUp => cases (caller?_removed l n).symm.trans hn
  | naps _ hleft =>
    cases (caller?_moved hc (.napping _)).symm.trans hn
    cases hnap
    exact ⟨hleft, rfl⟩

/-- **A nap begins** before the limit, and ends when the call has had its rest. -/
theorem til_of_step (hs : Locker.step now l e = some (l', fx)) (hp : e.party? = some (.caller n))
    (hm : MadeAt l now e n limit start) (hle : start ≤ now)
    (hn : l'.caller? n = some c) (hnap : c.stage = .napping til) :
    (∀ lim, limit = some lim → now - start < lim.nanos) ∧
      ∃ draw, til = (l.options.rest limit start now draw).after now := by
  cases acquiring_of_step hs hp hm hle with
  | waits _ hc | asks _ _ hc =>
    cases hc.symm.trans hn
    cases hnap
  | served _ _ hc | cancelled hc => cases hc.symm.trans hn
  | answered =>
    obtain ⟨⟨stage, hc⟩, -⟩ := hm.resolve_left nofun
    exact (til_of_answer hc hs hn hnap).imp_right fun htil => ⟨_, htil⟩
  | expired =>
    obtain ⟨⟨stage, hc⟩, -⟩ := hm.resolve_left nofun
    obtain ⟨_, _, _, -, -, -, ha⟩ := answer_of_expire hs
    exact (til_of_answer hc ha hn hnap).imp_right fun htil => ⟨_, htil⟩

/-! ## Bids that keep apart -/

/-- The next bid begins no earlier than `d` after the end of the one before, or at the limit. -/
def Apart (d : Duration) (limit : Option Duration) (start : Instant) (later earlier : Bid) : Prop :=
  ∃ u r, earlier.outcome = some (u, r) ∧ (d.after u ≤ later.began ∨ Overdue limit start later.began)

/-- Bids, the latest first, that keep apart. -/
def Spaced (d : Duration) (limit : Option Duration) (start : Instant) (bs : List Bid) : Prop :=
  bs.IsChain (Apart d limit start)

theorem Spaced.endBid {bs : List Bid} (hb : Spaced d limit start bs) (now : Instant)
    (r : Except LockError Returned) : Spaced d limit start (endBid now r bs) := by
  cases bs with
  | nil => exact hb
  | cons b bs =>
    cases bs with
    | nil => exact .singleton _
    | cons b' bs => exact .cons_cons (List.isChain_cons_cons.1 hb).1 (List.isChain_cons_cons.1 hb).2

/-- A call that has had its rest has slept for the shortest nap, or it wakes up at its limit. -/
theorem apart_of_rest (hd : d ≤ o.leastNap) (hle : start ≤ now)
    (hwake : (o.rest limit start now draw).after now ≤ til) :
    d.after now ≤ til ∨ Overdue limit start til := by
  have hnap : d ≤ o.nap draw := Nat.le_trans hd (o.leastNap_le_nap draw)
  cases limit with
  | none => exact .inl (Nat.le_trans (Duration.after_mono hnap now) hwake)
  | some lim =>
    let left : Duration := ⟨lim.nanos - (now - start)⟩
    by_cases hleft : d ≤ left
    · have hrest : d ≤ o.rest (some lim) start now draw := Nat.le_min.2 ⟨hnap, hleft⟩
      exact .inl (Nat.le_trans (Duration.after_mono hrest now) hwake)
    · -- the time left is shorter than the nap, so the call sleeps for just that
      have hshort : left.nanos ≤ d.nanos := Nat.le_of_not_le hleft
      have hrest : left ≤ o.rest (some lim) start now draw :=
        Nat.le_min.2 ⟨Nat.le_trans hshort hnap, Nat.le_refl _⟩
      have hover : left.after now ≤ til := Nat.le_trans (Duration.after_mono hrest now) hwake
      refine .inr ⟨lim, rfl, Nat.le_trans ?_ hover⟩
      show start + lim.nanos ≤ now + (lim.nanos - (now - start))
      omega

/-- What is known of a call that is under way: its bids keep apart, and a nap is a rest from the end
of the latest one. -/
structure Paced (o : Options) (d : Duration) (limit : Option Duration) (start : Instant)
    (stage : Caller.Stage) (bs : List Bid) : Prop where
  spaced : Spaced d limit start bs
  rested : ∀ til, stage = .napping til → ∃ b bs' u r draw, bs = b :: bs' ∧
    b.outcome = some (u, r) ∧ start ≤ u ∧ til = (o.rest limit start u draw).after u

/-- The bids still keep apart when the step has begun one, if it does. -/
theorem spaced_opened (hd : d ≤ o.leastNap) (hs : Locker.step now l e = some (l', fx))
    (hm : MadeAt l now e n limit start)
    (hu : ∀ stage, l.caller? n = some ⟨.acquire limit, start, stage⟩ →
      Paced o d limit start stage (bids o n h)) :
    Spaced d limit start (Entry.opened n ⟨now, e, fx⟩ (bids o n h)) := by
  rcases opened_cases hs hm (bids o n h) with ⟨-, heq⟩ | ⟨til, hc, hle, heq⟩ | ⟨stage, hc, heq⟩ <;>
    rw [heq]
  · exact .singleton _
  · obtain ⟨hspaced, hrested⟩ := hu _ hc
    obtain ⟨b, bs', u, r, draw, hbs, ho, hstart, rfl⟩ := hrested til rfl
    rw [hbs] at hspaced ⊢
    exact .cons_cons ⟨u, r, ho, apart_of_rest hd hstart hle⟩ hspaced
  · exact (hu stage hc).spaced

/-- **A step of the call keeps its bids apart**, and gives it its rest when it naps. -/
theorem Paced.step (hd : d ≤ l.options.leastNap) (run : Run l h) (ht : latest h ≤ now)
    (hs : Locker.step now l e = some (l', fx)) (hp : e.party? = some (.caller n))
    (hm : MadeAt l now e n limit start)
    (hu : ∀ stage, l.caller? n = some ⟨.acquire limit, start, stage⟩ →
      Paced l.options d limit start stage (bids l.options n h)) :
    Spaced d limit start (bids l.options n (⟨now, e, fx⟩ :: h)) ∧
      ∀ c, l'.caller? n = some c → c.verb = .acquire limit ∧ c.began = start ∧
        Paced l.options d limit start c.stage (bids l.options n (⟨now, e, fx⟩ :: h)) := by
  have hle := run.start_le ht hm
  have hopened := spaced_opened hd hs hm hu
  rcases (acquiring_of_step hs hp hm hle).outcome with ⟨hv, -, hc⟩ | ⟨r, hv, fx', hset, -⟩ <;>
    rw [bids_cons, hv]
  · refine ⟨hopened, fun c hc' => ?_⟩
    obtain ⟨hverb, hstart, hawake⟩ := hc c hc'
    exact ⟨hverb, hstart, hopened, fun til hstage => absurd hstage (hawake til)⟩
  · refine ⟨hopened.endBid now r, fun c hc' => ?_⟩
    cases hset with
    | concludes _ hgone => cases hgone.symm.trans hc'
    | @naps til _ _ hnap =>
      cases hnap.symm.trans hc'
      refine ⟨rfl, rfl, hopened.endBid now r, ?_⟩
      rintro _ ⟨⟩
      obtain ⟨-, draw, rfl⟩ := til_of_step hs hp hm hle hnap rfl
      obtain ⟨hser, -⟩ := series_opened ht hs hm fun _ => run.underway
      obtain ⟨b, bs, heq, -⟩ := hser.exists_cons
      rw [heq]
      exact ⟨_, bs, now, r, draw, rfl, rfl, hle, rfl⟩

/-- **A call that is under way has kept its bids apart.** -/
theorem Run.paced (run : Run l h) (hd : d ≤ l.options.leastNap)
    (hc : l.caller? n = some ⟨.acquire limit, start, stage⟩) :
    Paced l.options d limit start stage (bids l.options n h) := by
  induction run generalizing limit start stage with
  | made hm =>
    obtain ⟨-, rfl⟩ := make_eq_ok_iff.1 hm
    cases hc
  | @step l l' h now e fx run ht hs ih =>
    have st := stepped_of_step hs
    rw [st.options] at hd ⊢
    by_cases hp : e.party? = some (.caller n)
    · obtain ⟨start', hm⟩ := st.exists_madeAt hc rfl
      obtain ⟨-, hpaced⟩ := Paced.step hd run ht hs hp hm fun _ => ih hd
      obtain ⟨-, rfl, hu⟩ := hpaced _ hc
      exact hu
    · rw [bids_cons_of_ne hp fun r hr => hp (st.returned hr)]
      exact ih hd ((st.caller?_of_ne hp).symm.trans hc)

/-! ## What the options promise -/

/-- In every run, each call to acquire begins its bids at least `d` after the end of the one before,
or at its limit. -/
def KeepsApart (o : Options) (d : Duration) : Prop :=
  ∀ l h now e l' fx n limit start, Run l h → l.options = o → latest h ≤ now →
    Locker.step now l e = some (l', fx) → e.party? = some (.caller n) →
    MadeAt l now e n limit start → Spaced d limit start (bids o n (⟨now, e, fx⟩ :: h))

theorem keepsApart_of_le (hd : d ≤ o.leastNap) : KeepsApart o d := by
  rintro l h now e l' fx n limit start run rfl ht hs hp hm
  exact (Paced.step hd run ht hs hp hm fun _ => run.paced hd).1

/-- A call without a limit that has met another holder at once, and naps as shortly as it may. -/
def napping (o : Options) : Locker where
  options := o
  callers := [(0, ⟨.acquire none, 0, .napping ((o.nap 0).after 0)⟩)]

/-- It has come to that by these steps. -/
def firstBid : History :=
  [⟨0, .answer (.caller 0) (.acquire (.ok (.occupied none))) 0, []⟩,
    ⟨0, .call 0 (.acquire none), [.start (.caller 0) .acquire]⟩]

theorem run_napping (ho : o.check = .ok ()) : Run (napping o) firstBid := by
  have made : Run { options := o } [] := .made (make_eq_ok_iff.2 ⟨ho, rfl⟩)
  exact .step (.step made (Nat.le_refl 0) rfl) (Nat.le_refl 0) rfl

/-- **No options promise more than the shortest nap.** -/
theorem le_of_keepsApart (ho : o.check = .ok ()) (hk : KeepsApart o d) : d ≤ o.leastNap := by
  have hnap : (napping o).caller? 0 = some ⟨.acquire none, 0, .napping ((o.nap 0).after 0)⟩ := rfl
  obtain ⟨l', fx, hs⟩ : ∃ l' fx,
      Locker.step ((o.nap 0).after 0) (napping o) (.wake 0) = some (l', fx) :=
    ⟨_, _, (Arrival.wake hnap rfl (Nat.le_refl _)).step_eq⟩
  have hspaced := hk _ _ _ _ _ _ 0 none 0 (run_napping ho) rfl (Nat.zero_le _) hs rfl
    (.inr ⟨⟨_, hnap⟩, nofun⟩)
  obtain ⟨b, hbegan, hbids⟩ : ∃ b : Bid, b.began = (o.nap 0).after 0 ∧
      bids o 0 (⟨(o.nap 0).after 0, .wake 0, fx⟩ :: firstBid) = b :: bids o 0 firstBid := by
    rw [bids_cons]
    split <;> exact ⟨_, rfl, rfl⟩
  rw [hbids] at hspaced
  obtain ⟨u, r, ho', hle | ⟨_, hlimit, -⟩⟩ := (List.isChain_cons_cons.1 hspaced).1
  · cases ho'
    rw [hbegan, Options.nap_zero] at hle
    exact Nat.le_of_add_le_add_left hle
  · cases hlimit

theorem keepsApart_iff (ho : o.check = .ok ()) : KeepsApart o d ↔ d ≤ o.leastNap :=
  ⟨le_of_keepsApart ho, keepsApart_of_le⟩

/-- **Naps and their bounds.** For usable options, no nap is longer than the upper bound, whatever
is drawn. The lower bound holds of every nap if and only if it is a whole number of milliseconds
that fits in 64 bits, since the rest of it is dropped before the draw. Under the same condition, and
under no other, the bids of a call keep apart by the lower bound, up to the limit of the call; and
they keep apart at all if and only if the bound is a millisecond or more. -/
theorem naps_within_bounds (ho : o.check = .ok ()) :
    (∀ draw, o.nap draw ≤ o.maxNap) ∧
    ((∀ draw, o.minNap ≤ o.nap draw) ↔
      Duration.perMilli ∣ o.minNap.nanos ∧ o.minNap.millis ≤ maxUInt64) ∧
    (KeepsApart o o.minNap ↔
      Duration.perMilli ∣ o.minNap.nanos ∧ o.minNap.millis ≤ maxUInt64) ∧
    (KeepsApart o ⟨1⟩ ↔ .ofMillis 1 ≤ o.minNap) := by
  refine ⟨(Options.check_eq_ok_iff.1 ho).nap_le, ?_, ?_, ?_⟩
  · rw [← Options.minNap_le_leastNap_iff]
    constructor
    · exact fun h => o.nap_zero ▸ h 0
    · exact fun h draw => Nat.le_trans h (o.leastNap_le_nap draw)
  · rw [keepsApart_iff ho, Options.minNap_le_leastNap_iff]
  · rw [keepsApart_iff ho, Duration.ofMillis_le_iff]
    show 1 ≤ min o.minNap.millis maxUInt64 * Duration.perMilli ↔ _
    simp only [maxUInt64, Duration.perMilli]
    omega

/-- Naps of two or three milliseconds. -/
def patient : Options := { owner := "a", minNap := .ofMillis 2, maxNap := .ofMillis 3 }

theorem naps_within_bounds_patient :
    patient.check = .ok () ∧ (∀ draw, patient.minNap ≤ patient.nap draw) ∧
      KeepsApart patient (.ofMillis 2) := by
  have usable : patient.check = .ok () := rfl
  obtain ⟨-, within, apart, -⟩ := naps_within_bounds usable
  exact ⟨usable, within.2 (by decide), apart.2 (by decide)⟩

/-- Naps of nine tenths of a millisecond. -/
def hasty : Options := { owner := "a", minNap := ⟨900000⟩, maxNap := ⟨900000⟩ }

/-- A call meets another holder again and again. -/
def spinning : List (Instant × Event) :=
  let refused := Event.answer (.caller 0) (.acquire (.ok (.occupied (some "b")))) 7
  [(0, .call 0 (.acquire none)), (0, refused), (0, .wake 0), (0, refused), (0, .wake 0)]

/-- **Below a millisecond a call spins**: every nap is over at once, and the call makes one attempt
after another at the same instant. -/
theorem spins_below_milli :
    hasty.check = .ok () ∧ 0 < hasty.minNap.nanos ∧ (∀ draw, hasty.nap draw = ⟨0⟩) ∧
      ∃ l h, Run l h ∧ l.options = hasty ∧ latest h = 0 ∧
        (bids hasty 0 h).map Bid.began = [0, 0, 0] := by
  have usable : hasty.check = .ok () := rfl
  have made : Run { options := hasty } [] := .made (make_eq_ok_iff.2 ⟨usable, rfl⟩)
  refine ⟨usable, by decide, fun draw => ?_, ?_⟩
  · show Duration.ofMillis (0 + draw % 1) = ⟨0⟩
    rw [Nat.mod_one]
    rfl
  · exact ⟨_, _, made.replay (Option.some_get
      (x := replay ({ options := hasty }, []) spinning) rfl).symm, rfl, rfl, rfl⟩

end Locker

end LeaseLock
