import LeaseLock.Proofs.Locker.Health

/-!
# What the ticks publish

**Outcomes** (`Entry.outcome?`). A tick comes out when the service answers it, or when it is cut off
at its bound and counts as failed. Its instant is that of the outcome, not the one at which the
service was asked.

**The latest renewal** (`lastRenewed?`). The loop counts its lease from the latest tick that
succeeded, or else from the grant of the lock. A caller's refresh renews the record as well, but the
loop takes no notice of it.

**What a step publishes** (`Publishes`). A grant, an outcome or a call to unlock publishes a health,
and no other step does. From it come the rules (`StatusRules`), and what carries the induction: the
instant that a running loop counts from is the one of `lastRenewed?` (`Run.counts_from`).

**Spent lockers** (`Spent`). A loop that published a loss has ended, and a locker that was taken
once starts no other. So nothing but a call to unlock puts another health in the place of a loss.

Main result: `Run.status_rules`.
-/

namespace LeaseLock

theorem Phase.Goes.ne_idle {s s' : Phase} (h : s.Goes s') (hs : s ≠ .idle) : s' ≠ .idle := by
  cases h with
  | stays => exact hs
  | taken | left => exact nofun

namespace Ticker

/-- A failure that is neither a loss nor the end of the loop is judged by the lease, at the instant
of the outcome. -/
theorem settle_judged (t : Ticker) (lease : Duration) {now : Instant} {err : LockError}
    (hn : err ≠ .notHeld) (hl : ∀ loss, err ≠ .lost loss) (hr : t.renewed ≤ now) :
    (t.settle lease now (.error err)).1 = some
      (if now < lease.after t.renewed then .failing (.unrenewed err) t.renewed
        else .lost (.lapsed err)) := by
  have hlease : lease.nanos ≤ now - t.renewed ↔ ¬now < lease.after t.renewed := by
    rw [Nat.le_sub_iff_add_le' hr, Nat.not_lt]
    rfl
  unfold settle
  split
  next heq => cases heq
  next heq => exact absurd (Except.error.inj heq) hn
  next heq => exact absurd (Except.error.inj heq) (hl _)
  next heq =>
    cases heq
    by_cases hlt : now < lease.after t.renewed
    · rw [if_neg (by simpa [hlease] using hlt), if_pos hlt]
    · rw [if_pos (hlease.2 hlt), if_neg hlt]

theorem renewed_of_settle {t t' : Ticker} {lease : Duration} {now : Instant} {err : LockError}
    (h : (t.settle lease now (.error err)).2 = some t') : t'.renewed = t.renewed := by
  by_cases he : err = .notHeld
  · subst he
    cases h
  · exact ((t.settle_error lease now he).2 t' h).2

end Ticker

namespace Locker

variable {l l₀ l' : Locker} {h : History} {now : Instant} {e : Event} {fx : List Effect}
  {p : Party} {op : Op} {a : Answer} {x : Entry} {o : Options} {cause : LossCause}

/-! ## Reading the ticks off a history -/

/-- How a tick has come out at this step, if one has. -/
def Entry.outcome? (o : Options) (x : Entry) : Option (Except LockError Unit) :=
  match x.event with
  | .answer .ticker (.refresh r) _ => some r
  | .expire .ticker => o.callTimeout.map fun limit => .error (.timedOut limit)
  | _ => none

/-- The loop counts its lease from this step: the lock is granted, or a tick succeeds. -/
def Entry.renewsLoop (x : Entry) : Bool :=
  match x.event with
  | .answer (.caller _) (.acquire (.ok .granted)) _ | .answer .ticker (.refresh (.ok ())) _ => true
  | _ => false

/-- The instant from which the loop counts its lease. -/
def lastRenewed? (h : History) : Option Instant := (h.find? Entry.renewsLoop).map (·.time)

theorem lastRenewed?_cons (x : Entry) (h : History) :
    lastRenewed? (x :: h) = if x.renewsLoop then some x.time else lastRenewed? h := by
  unfold lastRenewed?
  rw [List.find?_cons]
  cases x.renewsLoop <;> rfl

theorem renewsLoop_iff (o : Options) (x : Entry) :
    x.renewsLoop = true ↔ x.starts = true ∨ x.outcome? o = some (.ok ()) := by
  obtain ⟨now, e, fx⟩ := x
  unfold Entry.renewsLoop Entry.starts Entry.outcome?
  split <;> simp_all
  split <;> simp_all

theorem lastRenewed?_cons_of_ne (hs : x.starts = false) (ho : x.outcome? o ≠ some (.ok ()))
    (h : History) : lastRenewed? (x :: h) = lastRenewed? h := by
  rw [lastRenewed?_cons, if_neg]
  rw [renewsLoop_iff o, hs]
  simpa using ho

/-! ## What a step publishes -/

/-- If there is a loop in `l'`, it is the one of `l` and counts from the same instant. -/
def Carries (l l' : Locker) : Prop :=
  ∀ t', l'.ticker = some t' → ∃ t, l.ticker = some t ∧ t'.renewed = t.renewed

theorem Carries.of_eq (ht : l'.ticker = l.ticker) : Carries l l' :=
  fun t' h => ⟨t', ht ▸ h, rfl⟩

theorem Carries.of_none (ht : l'.ticker = none) : Carries l l' := by
  intro t' h
  cases ht.symm.trans h

theorem Carries.eq_none (hc : Carries l l') (ht : l.ticker = none) : l'.ticker = none := by
  rw [Option.eq_none_iff_forall_ne_some]
  intro t ht'
  obtain ⟨t₀, ht₀, -⟩ := hc t ht'
  cases ht.symm.trans ht₀

theorem Carries.trans (h : Carries l l₀) (h' : Carries l₀ l') : Carries l l' := by
  intro t' ht'
  obtain ⟨t₀, ht₀, heq'⟩ := h' t' ht'
  obtain ⟨t, ht, heq⟩ := h t₀ ht₀
  exact ⟨t, ht, heq'.trans heq⟩

/-- What a step makes of the health and of the loop. -/
inductive Publishes (l : Locker) (x : Entry) (l' : Locker) : Prop
  | begins : x.starts = true → x.outcome? l.options = none → x.stops = false → l.phase = .idle →
      l'.health = .healthy → l'.ticker = some (.start l.options.interval x.time) → Publishes l x l'
  /-- A tick has come out. -/
  | tells {t : Ticker} {r : Except LockError Unit} : x.outcome? l.options = some r →
      x.starts = false → x.stops = false → l.phase = .held → l.ticker = some t →
      l'.health = (t.settle l.options.lease x.time r).1.getD l.health →
      l'.ticker = (t.settle l.options.lease x.time r).2 → Publishes l x l'
  | stops : x.stops = true → x.starts = false → x.outcome? l.options = none →
      l'.health = .idle → l'.ticker = none → Publishes l x l'
  | keeps : x.starts = false → x.outcome? l.options = none → x.stops = false →
      l'.health = l.health → Carries l l' → Publishes l x l'

/-- A turn publishes nothing, unless it is that of a call to unlock. -/
theorem Turn.publishes (t : Turn l now p l' fx) :
    fx.any Effect.unlocks = true ∧ l'.health = .idle ∧ l'.ticker = none ∨
      fx.any Effect.unlocks = false ∧ l'.health = l.health ∧ Carries l l' := by
  cases t with
  | served | surrendered | attempted | refreshed | closed => exact .inr ⟨rfl, rfl, .of_eq rfl⟩
  | unlocked => exact .inl ⟨rfl, rfl, rfl⟩
  | @ticked t ht =>
    refine .inr ⟨rfl, rfl, ?_⟩
    intro t' h
    cases h
    exact ⟨t, ht, rfl⟩
  | ended | returnedBack => exact .inr ⟨rfl, rfl, .of_none rfl⟩

theorem Arrival.carries (ha : Arrival l now e p l₀) : Carries l (l₀.joined p) := by
  cases ha with
  | call | wake | close => exact .of_eq rfl
  | @tick t ht =>
    intro t' h
    cases h
    exact ⟨t, ht, rfl⟩

theorem outcome?_of_arrival (ha : Arrival l now e p l₀) :
    Entry.outcome? o ⟨now, e, fx⟩ = none := by
  cases ha <;> rfl

theorem health_drop (l : Locker) (errands : Bool) : (l.drop errands).health = l.health := by
  unfold drop
  split
  · cases l.phase <;> cases errands <;> rfl
  · cases errands <;> rfl

theorem carries_drop (l : Locker) (errands : Bool) : Carries l (l.drop errands) := by
  unfold drop
  split
  · cases l.phase <;> cases errands <;> first | exact .of_eq rfl | exact .of_none rfl
  · cases errands <;> exact .of_eq rfl

/-- A tick that comes out comes out of a held locker, as its loop settles it. -/
theorem Heard.publishes (hl : Sound l) (hout : l.callingSince p ≠ none) (t : Heard l now p a l' fx)
    (htime : x.time = now) (hx : x.stops = false)
    (hs : x.starts = true ↔ (∃ n, p = .caller n) ∧ a = .acquire (.ok .granted))
    (ho : ∀ r, x.outcome? l.options = some r ↔ p = .ticker ∧ a = .refresh r) :
    Publishes l x l' := by
  have hph := hl.phase p a.op hout t.opOf
  have unstarted : a ≠ .acquire (.ok .granted) → x.starts = false := by
    intro ha
    rw [← Bool.not_eq_true, hs]
    exact fun h => ha h.2
  have quiet : p ≠ .ticker → x.outcome? l.options = none := by
    intro hp
    rw [Option.eq_none_iff_forall_ne_some]
    exact fun r hr => hp ((ho r).1 hr).1
  cases t with
  | granted =>
    rw [← htime]
    exact .begins (hs.2 ⟨⟨_, rfl⟩, rfl⟩) (quiet nofun) hx hph rfl rfl
  | refused _ _ hr | napped _ _ hr =>
    exact .keeps (unstarted (mt Answer.acquire.inj hr)) (quiet nofun) hx rfl (.of_eq rfl)
  | refreshed | released | closed =>
    exact .keeps (unstarted nofun) (quiet nofun) hx rfl (.of_eq rfl)
  | @ticked t r ht =>
    refine .tells ((ho r).2 ⟨rfl, rfl⟩) (unstarted nofun) hx hph ht ?_ ?_
    · rw [htime, answerTicker_eq]
    · rw [htime, answerTicker_eq]

theorem starts_answer_iff {draw : Nat} : Entry.starts ⟨now, .answer p a draw, fx⟩ = true ↔
    (∃ n, p = .caller n) ∧ a = .acquire (.ok .granted) := by
  unfold Entry.starts
  split
  next heq =>
    cases heq
    simp
  next hne =>
    refine iff_of_false Bool.false_ne_true ?_
    rintro ⟨⟨n, rfl⟩, rfl⟩
    exact hne n draw rfl

theorem outcome?_answer_iff {draw : Nat} {r : Except LockError Unit} :
    Entry.outcome? o ⟨now, .answer p a draw, fx⟩ = some r ↔ p = .ticker ∧ a = .refresh r := by
  unfold Entry.outcome?
  split
  next heq =>
    cases heq
    simp [eq_comm]
  next heq => cases heq
  next hne _ =>
    refine iff_of_false nofun ?_
    rintro ⟨rfl, rfl⟩
    exact hne r draw rfl

/-- A tick that is cut off counts as answered with a failure. -/
theorem outcome?_expire_iff {limit : Duration} {r : Except LockError Unit}
    (hlimit : l.options.callTimeout = some limit) (hop : l.opOf p = some op) :
    Entry.outcome? l.options ⟨now, .expire p, fx⟩ = some r ↔
      p = .ticker ∧ Answer.failed (.timedOut limit) op = .refresh r := by
  unfold Entry.outcome?
  cases p with
  | ticker =>
    cases hop
    simp [hlimit, Answer.failed, eq_comm]
  | caller n | closer => exact iff_of_false nofun fun hr => by cases hr.1

/-- **What a step publishes.** -/
theorem Run.publishes (run : Run l h) (hs : Locker.step now l e = some (l', fx)) :
    Publishes l ⟨now, e, fx⟩ l' := by
  cases stepped_of_step hs with
  | joined ha =>
    exact .keeps (starts_of_not_isAnswer (isAnswer_of_arrival ha)) (outcome?_of_arrival ha) rfl
      ha.renewal.2.1 ha.carries
  | turned ha _ t =>
    have hs : Entry.starts ⟨now, e, fx⟩ = false := starts_of_not_isAnswer (isAnswer_of_arrival ha)
    rcases t.publishes with ⟨hx, hh, ht⟩ | ⟨hx, hh, hc⟩
    · exact .stops hx hs (outcome?_of_arrival ha) hh ht
    · exact .keeps hs (outcome?_of_arrival ha) hx (hh.trans ha.renewal.2.1) (ha.carries.trans hc)
  | resumed _ t =>
    rcases t.publishes with ⟨hx, hh, ht⟩ | ⟨hx, hh, hc⟩
    · exact .stops hx rfl rfl hh ht
    · exact .keeps rfl rfl hx hh hc
  | answered hout t =>
    exact t.publishes run.sound hout rfl (unlocks_of_returns t.returns) starts_answer_iff
      fun _ => outcome?_answer_iff
  | expired =>
    obtain ⟨limit, op, fx', hlimit, hout, hop, hfx, t⟩ := bound_of_expire hs
    cases hfx
    have hx := unlocks_of_returns t.returns
    refine t.publishes run.sound hout rfl hx ?_ fun _ => outcome?_expire_iff hlimit hop
    -- a failure grants nothing
    refine iff_of_false Bool.false_ne_true ?_
    rintro ⟨-, ha⟩
    cases op <;> cases ha
  | cut | cancelled => exact .keeps rfl rfl rfl rfl (.of_eq rfl)
  | lapsed => exact .keeps rfl rfl rfl rfl (.of_none rfl)
  | dropped => exact .keeps rfl rfl rfl (health_drop l _) (carries_drop l _)
  | sent => exact .keeps rfl rfl rfl rfl (.of_none rfl)

/-! ## What a loop counts from -/

/-- **A running loop counts its lease from its latest success**, or from the grant. -/
theorem Run.counts_from (run : Run l h) {t : Ticker} (ht : l.ticker = some t) :
    lastRenewed? h = some t.renewed := by
  induction run generalizing t with
  | made hm =>
    obtain ⟨-, rfl⟩ := make_eq_ok_iff.1 hm
    cases ht
  | @step l l' h now e fx run _ hs ih =>
    cases run.publishes hs with
    | begins hst _ _ _ _ ht' =>
      cases ht'.symm.trans ht
      rw [lastRenewed?_cons, if_pos ((renewsLoop_iff l.options _).2 (.inl hst))]
      rfl
    | @tells t₀ r ho hst _ _ ht₀ _ ht' =>
      rw [ht'] at ht
      cases r with
      | ok u =>
        cases ht
        rw [lastRenewed?_cons, if_pos ((renewsLoop_iff l.options _).2 (.inr ho))]
      | error err =>
        rw [lastRenewed?_cons_of_ne (o := l.options) hst (by simp [ho]), ih ht₀,
          Ticker.renewed_of_settle ht]
    | stops _ _ _ _ ht' => cases ht'.symm.trans ht
    | keeps hst ho _ _ hc =>
      obtain ⟨t₀, ht₀, heq⟩ := hc t ht
      rw [lastRenewed?_cons_of_ne (o := l.options) hst (by simp [ho]), ih ht₀, heq]

theorem Run.lastRenewed_le (run : Run l h) {t : Instant} (ht : lastRenewed? h = some t) :
    t ≤ latest h := by
  obtain ⟨x, hx, rfl⟩ := Option.map_eq_some_iff.1 ht
  exact run.time_le_latest (List.mem_of_find?_eq_some hx)

/-! ## Failing -/

/-- The latest tick that published anything has failed with `err` within the lease, which counts
from `renewed`. -/
def LatelyFailed (o : Options) (h : History) (err : LockError) (renewed : Instant) : Prop :=
  ∃ newer x older, h = newer ++ x :: older ∧ x.outcome? o = some (.error err) ∧
    lastRenewed? older = some renewed ∧ x.time < o.lease.after renewed ∧
    ∀ y ∈ newer, y.starts = false ∧ (∀ r, y.outcome? o = some r → r = .error .notHeld)

theorem LatelyFailed.cons {err : LockError} {renewed : Instant}
    (hf : LatelyFailed o h err renewed) (hs : x.starts = false)
    (ho : ∀ r, x.outcome? o = some r → r = .error .notHeld) :
    LatelyFailed o (x :: h) err renewed := by
  obtain ⟨newer, y, older, rfl, hy, hr, hlt, hnewer⟩ := hf
  refine ⟨x :: newer, y, older, rfl, hy, hr, hlt, ?_⟩
  intro z hz
  rcases List.mem_cons.1 hz with rfl | hz
  · exact ⟨hs, ho⟩
  · exact hnewer z hz

/-- **A failing health tells of the latest tick.** -/
theorem Run.lately_failed (run : Run l h) {err : LockError} {renewed : Instant}
    (hh : l.health = .failing err renewed) :
    ∃ cause, err = .unrenewed cause ∧ LatelyFailed l.options h cause renewed := by
  induction run with
  | made hm =>
    obtain ⟨-, rfl⟩ := make_eq_ok_iff.1 hm
    cases hh
  | @step l l' h now e fx run hle hs ih =>
    rw [(stepped_of_step hs).options]
    cases run.publishes hs with
    | begins _ _ _ _ hh' | stops _ _ _ hh' => cases hh'.symm.trans hh
    | keeps hst ho _ hh' =>
      obtain ⟨cause, rfl, hf⟩ := ih (hh'.symm.trans hh)
      exact ⟨cause, rfl, hf.cons hst (by simp [ho])⟩
    | @tells t r ho hst _ _ ht hh' _ =>
      rw [hh'] at hh
      have hr := run.counts_from ht
      rcases r with err' | u
      · by_cases hn : err' = .notHeld
        · subst hn
          obtain ⟨cause, rfl, hf⟩ := ih hh
          refine ⟨cause, rfl, hf.cons hst ?_⟩
          intro r hr
          exact Option.some.inj (hr.symm.trans ho)
        by_cases hl : ∃ loss, err' = .lost loss
        · obtain ⟨loss, rfl⟩ := hl
          cases hh
        · have hle' : t.renewed ≤ now := Nat.le_trans (run.lastRenewed_le hr) hle
          rw [t.settle_judged _ hn (fun loss heq => hl ⟨loss, heq⟩) hle', Option.getD_some] at hh
          split at hh
          next hlt =>
            cases hh
            exact ⟨err', rfl, [], _, h, rfl, ho, hr, hlt, nofun⟩
          · cases hh
      · cases hh

/-! ## Lost -/

/-- The locker has been taken, and its loop has ended. -/
structure Spent (l : Locker) : Prop where
  ticker : l.ticker = none
  phase : l.phase ≠ .idle

theorem Run.spent (run : Run l h) (hh : l.health = .lost cause) : Spent l := by
  induction run with
  | made hm =>
    obtain ⟨-, rfl⟩ := make_eq_ok_iff.1 hm
    cases hh
  | @step l l' h now e fx run _ hs ih =>
    have goes := (run.shift hs).goes
    cases run.publishes hs with
    | begins _ _ _ _ hh' | stops _ _ _ hh' => cases hh'.symm.trans hh
    | keeps _ _ _ hh' hc =>
      obtain ⟨ht, hp⟩ := ih (hh'.symm.trans hh)
      exact ⟨hc.eq_none ht, goes.ne_idle hp⟩
    | @tells t r _ _ _ hp ht hh' ht' =>
      refine ⟨?_, goes.ne_idle (by simp [hp])⟩
      rw [hh'] at hh
      rcases t.settle_cases l.options.lease now r with
        ⟨t', h', heq, hlost⟩ | ⟨h', heq, -⟩ | ⟨-, heq⟩
      · -- the loop goes on, and the lock is not lost
        rw [heq] at hh
        cases hh
        cases hlost
      · rw [ht', heq]
      · rw [ht', heq]

theorem Turn.ticks (t : Turn l now p l' fx) (hfx : .start .ticker op ∈ fx) : l.ticker ≠ none := by
  cases t with
  | ticked ht => simp [ht]
  | served | surrendered | attempted | refreshed | unlocked | ended | returnedBack | closed =>
    simp at hfx

theorem Stepped.ticks (s : Stepped l now e l' fx) (hfx : .start .ticker op ∈ fx) :
    l.ticker ≠ none := by
  cases s with
  | turned ha _ t => exact mt ha.renewal.2.2.2 (t.ticks hfx)
  | resumed _ t => exact t.ticks hfx
  | answered _ t => exact absurd hfx t.returns.not_start
  | expired _ _ t => exact absurd ((List.mem_cons.1 hfx).resolve_left nofun) t.returns.not_start
  | joined | cut | cancelled | lapsed | dropped | sent => simp at hfx

/-- **A spent locker stays spent**, and its health stays as it is but for a call to unlock. -/
theorem Run.spent_step (run : Run l h) (hs : Locker.step now l e = some (l', fx)) (hl : Spent l) :
    Spent l' ∧ (∀ op, .start .ticker op ∉ fx) ∧
      (l'.health = l.health ∨ Entry.stops ⟨now, e, fx⟩ = true) := by
  obtain ⟨ht, hp⟩ := hl
  have hp' := (run.shift hs).goes.ne_idle hp
  have silent : ∀ op, .start .ticker op ∉ fx := fun op hfx => (stepped_of_step hs).ticks hfx ht
  cases run.publishes hs with
  | begins _ _ _ hi => exact absurd hi hp
  | tells _ _ _ _ ht' => cases ht.symm.trans ht'
  | stops hx _ _ _ ht' => exact ⟨⟨ht', hp'⟩, silent, .inr hx⟩
  | keeps _ _ _ hh hc => exact ⟨⟨hc.eq_none ht, hp'⟩, silent, .inl hh⟩

/-- A loss stands over whatever follows: no tick asks the service again, and the health is the same
until a call to unlock sends its release out. -/
theorem Run.loss_stands {es : List (Instant × Event)} {s : Locker × History} (run : Run l h)
    (hl : Spent l) (hs : Locker.replay (l, h) es = some s) :
    ∃ newer, s.2 = newer ++ h ∧ (∀ y ∈ newer, ∀ op, .start .ticker op ∉ y.effects) ∧
      (s.1.health = l.health ∨ ∃ y ∈ newer, y.stops = true) := by
  obtain ⟨newer, heq, -, -, silent, hh⟩ := replay_induction
    (P := fun l' newer => Run l' (newer ++ h) ∧ Spent l' ∧
      (∀ y ∈ newer, ∀ op, .start .ticker op ∉ y.effects) ∧
      (l'.health = l.health ∨ ∃ y ∈ newer, y.stops = true))
    ⟨run, hl, nofun, .inl rfl⟩
    (by
      rintro l₁ l₂ newer now e fx ⟨run₁, hl₁, silent, hh⟩ hle hst
      obtain ⟨hl₂, silent', hh'⟩ := run₁.spent_step hst hl₁
      refine ⟨run₁.step hle hst, hl₂, List.forall_mem_cons.2 ⟨silent', silent⟩, ?_⟩
      rcases hh' with hh' | hx
      · exact hh.imp hh'.trans fun ⟨y, hy, hx⟩ => ⟨y, List.mem_cons_of_mem _ hy, hx⟩
      · exact .inr ⟨_, List.mem_cons_self, hx⟩) hs
  exact ⟨newer, heq, silent, hh⟩

/-! ## The rules -/

/-- What a step makes of the health. -/
structure StatusRules (l : Locker) (h : History) (x : Entry) (l' : Locker) : Prop where
  succeeds : x.outcome? l.options = some (.ok ()) → l'.health = .healthy
  told : ∀ loss, x.outcome? l.options = some (.error (.lost loss)) → l'.health = .lost (.told loss)
  /-- Any other failure is judged by the lease, which counts from the latest success, at the instant
  at which the tick comes out. -/
  fails : ∀ err, x.outcome? l.options = some (.error err) → err ≠ .notHeld →
    (∀ loss, err ≠ .lost loss) →
    ∃ renewed, lastRenewed? h = some renewed ∧ l'.health =
      if x.time < l.options.lease.after renewed then .failing (.unrenewed err) renewed
      else .lost (.lapsed err)
  unheld : x.outcome? l.options = some (.error .notHeld) → l'.health = l.health
  /-- Without an outcome only a grant and a call to unlock change the health. -/
  rests : x.outcome? l.options = none → l'.health = l.health ∨
    x.starts = true ∧ l'.health = .healthy ∨ x.stops = true ∧ l'.health = .idle

theorem Run.statusRules (run : Run l h) (hle : latest h ≤ now)
    (hs : Locker.step now l e = some (l', fx)) : StatusRules l h ⟨now, e, fx⟩ l' := by
  cases run.publishes hs with
  | begins hst ho _ _ hh =>
    exact ⟨by simp [ho], by simp [ho], by simp [ho], by simp [ho], fun _ => .inr (.inl ⟨hst, hh⟩)⟩
  | stops hx _ ho hh =>
    exact ⟨by simp [ho], by simp [ho], by simp [ho], by simp [ho], fun _ => .inr (.inr ⟨hx, hh⟩)⟩
  | keeps _ ho _ hh =>
    exact ⟨by simp [ho], by simp [ho], by simp [ho], by simp [ho], fun _ => .inl hh⟩
  | @tells t r ho _ _ _ ht hh =>
    have same : ∀ {r'}, Entry.outcome? l.options ⟨now, e, fx⟩ = some r' → r' = r :=
      fun h' => Option.some.inj (h'.symm.trans ho)
    refine ⟨?_, ?_, ?_, ?_, by simp [ho]⟩
    · intro h'
      cases same h'
      exact hh
    · intro loss h'
      cases same h'
      exact hh
    · intro err h' hn hl
      cases same h'
      have hr := run.counts_from ht
      refine ⟨t.renewed, hr, ?_⟩
      rw [hh, t.settle_judged _ hn hl (Nat.le_trans (run.lastRenewed_le hr) hle), Option.getD_some]
    · intro h'
      cases same h'
      exact hh

/-- A tick succeeds and the next one is cut off at its bound. A caller's refresh succeeds. Then a
third tick asks the service, just before the lease of the first one runs out. -/
def failingRenewal : List (Instant × Event) :=
  [(0, .call 0 .lock),
    (1, .answer (.caller 0) (.acquire (.ok .granted)) 0),
    (5000000001, .tick),
    (5000000002, .answer .ticker (.refresh (.ok ())) 0),
    (10000000001, .tick),
    (11000000001, .expire .ticker),
    (12000000000, .call 1 .refresh),
    (12000000001, .answer (.caller 1) (.refresh (.ok ())) 0),
    (15000000001, .tick)]

/-- The locker that comes out of it. -/
def waning : Locker where
  options := ownedByA
  phase := .held
  health := .failing (.unrenewed (.timedOut (.ofSecs 1))) 5000000002
  guard := ⟨[.ticker]⟩
  ticker := some ⟨20000000001, 5000000002, .calling 15000000001⟩

/-- The third tick fails when the lease has just run out. -/
def lapse : Event := .answer .ticker (.refresh (.error (.unavailable "gone"))) 0

/-- What is left of the locker. -/
def wasted : Locker :=
  { waning with health := .lost (.lapsed (.unavailable "gone")), guard := {}, ticker := none }

/-- A caller's refresh succeeds all the same. -/
def lateRefresh : List (Instant × Event) :=
  [(16000000000, .call 2 .refresh), (16000000001, .answer (.caller 2) (.refresh (.ok ())) 0)]

end Locker

end LeaseLock
