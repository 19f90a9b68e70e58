import LeaseLock.Proofs.Locker.Waiting

/-!
# How renewal goes on and ends

**Drift** (`Drift`). What a step that hears no answer can make of the renewal of a locker that is
still in use: nothing, but for a tick that is cut off at its bound and counts as failed.

**Warnings** (`warned`). A caller's refresh was told that the lock is lost. Only that caller hears
of it: neither the health nor the loop changes. A locker is forsaken (`forsaken`) if a tick was
answered after such a warning.
-/

namespace LeaseLock

/-- The lock is known to be gone. -/
def Health.isLost : Health → Bool
  | .lost _ => true
  | _ => false

/-- What is left of a tick: the loop goes on and the lock is not lost, or both have ended, or the
loop alone has. -/
theorem Ticker.settle_cases (t : Ticker) (lease : Duration) (now : Instant)
    (r : Except LockError Unit) :
    (∃ t' h', t.settle lease now r = (some h', some t') ∧ h'.isLost = false) ∨
      (∃ h', t.settle lease now r = (some h', none) ∧ h'.isLost = true) ∨
      r = .error .notHeld ∧ t.settle lease now r = (none, none) := by
  unfold Ticker.settle
  split
  · exact .inl ⟨_, _, rfl, rfl⟩
  · exact .inr (.inr ⟨rfl, rfl⟩)
  · exact .inr (.inl ⟨_, rfl, rfl⟩)
  · split
    · exact .inr (.inl ⟨_, rfl, rfl⟩)
    · exact .inl ⟨_, _, rfl, rfl⟩

/-- A tick that failed is told. If the loop goes on, its instants are as they were; if the lock
counts as lost, the service has said so, or a whole lease has passed. -/
theorem Ticker.settle_error (t : Ticker) (lease : Duration) (now : Instant) {e : LockError}
    (he : e ≠ .notHeld) :
    (∃ h, (t.settle lease now (.error e)).1 = some h ∧ h ≠ .healthy ∧
        (h.isLost = true → (∃ loss, e = .lost loss) ∨ lease.nanos ≤ now - t.renewed)) ∧
      ∀ t', (t.settle lease now (.error e)).2 = some t' →
        t'.due = t.due ∧ t'.renewed = t.renewed := by
  unfold Ticker.settle
  split
  next h => cases h
  next h => exact absurd (Except.error.inj h) he
  next h => exact ⟨⟨_, rfl, by simp, fun _ => .inl ⟨_, Except.error.inj h⟩⟩, nofun⟩
  · split
    next hle => exact ⟨⟨_, rfl, by simp, fun _ => .inr hle⟩, nofun⟩
    · refine ⟨⟨_, rfl, by simp, nofun⟩, fun t' ht => ?_⟩
      cases ht
      exact ⟨rfl, rfl⟩

namespace Locker

variable {l l₁ l' : Locker} {h : History} {now : Instant} {e : Event} {fx : List Effect} {p : Party}

/-! ## Warnings -/

/-- A caller's refresh is told that the lock is lost. -/
def Event.warns : Event → Bool
  | .answer (.caller _) (.refresh (.error (.lost _))) _ => true
  | _ => false

/-- A tick is answered. -/
def Event.answersTick : Event → Bool
  | .answer .ticker _ _ => true
  | _ => false

/-- A caller's refresh was told that the lock is lost. -/
def warned (h : History) : Bool := h.any (·.event.warns)

/-- A tick was answered after a caller's refresh had been told that the lock is lost. -/
def forsaken : History → Bool
  | [] => false
  | x :: h => x.event.answersTick && warned h || forsaken h

theorem warned_cons (x : Entry) (h : History) : warned (x :: h) = (x.event.warns || warned h) := rfl

theorem forsaken_cons (x : Entry) (h : History) :
    forsaken (x :: h) = (x.event.answersTick && warned h || forsaken h) := rfl

theorem forsaken_of_not_warned (hw : warned h = false) : forsaken h = false := by
  induction h with
  | nil => rfl
  | cons x h ih =>
    rw [warned_cons, Bool.or_eq_false_iff] at hw
    rw [forsaken_cons, hw.2, ih hw.2, Bool.and_false]
    rfl

theorem warned_cons_of_not_isAnswer (he : e.isAnswer = false) (h : History) :
    warned (⟨now, e, fx⟩ :: h) = warned h := by
  cases e <;> first | rfl | cases he

theorem forsaken_cons_of_not_isAnswer (he : e.isAnswer = false) (h : History) :
    forsaken (⟨now, e, fx⟩ :: h) = forsaken h := by
  cases e <;> first | rfl | cases he

/-! ## Drift -/

/-- What a step that hears no answer can make of the renewal. -/
inductive Drift (l l' : Locker) : Prop
  | steady : l'.phase = l.phase → l'.health = l.health → (l'.ticker = none ↔ l.ticker = none) →
      Drift l l'
  /-- A tick has failed. -/
  | failed : l'.phase = l.phase → l.ticker ≠ none →
      (l'.ticker ≠ none ∧ l'.health.isLost = false ∨ l'.ticker = none ∧ l'.health.isLost = true) →
      Drift l l'
  | idle : l'.phase = .idle → l.phase = .idle → Drift l l'
  | gone : l'.dropped = true ∨ l'.phase = .released → Drift l l'

theorem Drift.after (d : Drift l₁ l') (hp : l₁.phase = l.phase) (hh : l₁.health = l.health)
    (ht : l₁.ticker = none ↔ l.ticker = none) : Drift l l' := by
  cases d with
  | steady hp' hh' ht' => exact .steady (hp'.trans hp) (hh'.trans hh) (ht'.trans ht)
  | failed hp' hn hr => exact .failed (hp'.trans hp) (fun h => hn (ht.2 h)) hr
  | idle hp' hi => exact .idle hp' (hp.symm.trans hi)
  | gone hg => exact .gone hg

theorem Turn.drift (t : Turn l now p l' fx) : Drift l l' := by
  cases t with
  | served | attempted | refreshed => exact .steady rfl rfl Iff.rfl
  | surrendered | unlocked | returnedBack | closed => exact .gone (.inr rfl)
  | ticked ht => exact .steady rfl rfl (by simp [ht])
  | ended _ _ hp =>
    cases hph : l.phase with
    | idle => exact .idle hph hph
    | held => exact absurd hph hp
    | released => exact .gone (.inr hph)

theorem Arrival.renewal {l₀ : Locker} (ha : Arrival l now e p l₀) :
    (l₀.joined p).phase = l.phase ∧ (l₀.joined p).health = l.health ∧
      ((l₀.joined p).ticker = none ↔ l.ticker = none) := by
  cases ha with
  | call | wake | close => exact ⟨rfl, rfl, Iff.rfl⟩
  | tick ht => exact ⟨rfl, rfl, by simp [joined, ht]⟩

theorem Heard.drift {limit : Duration} {op : Op}
    (t : Heard l now p (.failed (.timedOut limit) op) l' fx) (hph : l.phase = op.during) :
    Drift l l' := by
  cases op with
  | acquire => cases t <;> exact .steady rfl rfl Iff.rfl
  | release =>
    cases t with
    | released | closed => exact .gone (.inr hph)
  | refresh =>
    cases t with
    | refreshed => exact .steady rfl rfl Iff.rfl
    | @ticked tk _ ht =>
      rw [answerTicker_eq]
      rcases tk.settle_cases l.options.lease now (.error (.timedOut limit)) with
        ⟨t', h', hs, hl⟩ | ⟨h', hs, hl⟩ | ⟨hr, -⟩
      · exact .failed rfl (by simp [ht]) (.inl ⟨by simp [hs], by simpa [hs] using hl⟩)
      · exact .failed rfl (by simp [ht]) (.inr ⟨by simp [hs], by simpa [hs] using hl⟩)
      · simp at hr

theorem drift_drop (l : Locker) (errands : Bool) : Drift l (l.drop errands) := by
  refine .gone (.inl ?_)
  unfold drop
  split
  · cases l.phase <;> cases errands <;> rfl
  · cases errands <;> rfl

/-- **A step that hears no answer lets the renewal drift.** -/
theorem Run.drift (run : Run l h) (he : e.isAnswer = false) (hs : l.step now e = some (l', fx)) :
    Drift l l' := by
  cases stepped_of_step hs with
  | joined ha =>
    obtain ⟨hp, hh, ht⟩ := ha.renewal
    exact .steady hp hh ht
  | turned ha _ ht =>
    obtain ⟨hp, hh, htk⟩ := ha.renewal
    exact ht.drift.after hp hh htk
  | resumed _ ht => exact ht.drift
  | answered => cases he
  | expired hp hop hh => exact hh.drift (run.sound.phase _ _ hp hop)
  | cut | cancelled => exact .steady rfl rfl Iff.rfl
  | lapsed _ _ hd => exact .gone (.inl hd)
  | dropped => exact drift_drop _ _
  | sent hc => exact .gone (.inr (run.sound.errand (.inl hc)).1)

theorem Turn.dropped (t : Turn l now p l' fx) : l'.dropped = l.dropped := by
  cases t <;> rfl

theorem Heard.dropped {a : Answer} (t : Heard l now p a l' fx) : l'.dropped = l.dropped := by
  cases t <;> rfl

theorem Arrival.dropped {l₀ : Locker} (ha : Arrival l now e p l₀) : l₀.dropped = l.dropped := by
  cases ha <;> rfl

/-- Only by dropping the last handle, and then there are no callers, does a locker become a
dropped one. -/
theorem Stepped.dropped_eq (s : Stepped l now e l' fx) :
    l'.dropped = l.dropped ∨
      l.dropped = false ∧ l.callers = [] ∧ ∃ errands, e = .drop errands := by
  cases s with
  | joined ha => exact .inl ha.dropped
  | turned ha _ ht => exact .inl (ht.dropped.trans ha.dropped)
  | resumed _ ht => exact .inl ht.dropped
  | answered _ hh | expired _ _ hh => exact .inl hh.dropped
  | dropped hd hc => exact .inr ⟨hd, hc, _, rfl⟩
  | cut | cancelled | lapsed | sent => exact .inl rfl

theorem Stepped.dropped_of_dropped (s : Stepped l now e l' fx) (hd : l.dropped = true) :
    l'.dropped = true := by
  rcases s.dropped_eq with heq | ⟨hn, -⟩
  · rw [heq, hd]
  · rw [hn] at hd
    cases hd

/-- **A locker with callers has a handle.** -/
theorem Run.not_dropped (run : Run l h) {n : Nat} {c : Caller} (hc : l.caller? n = some c) :
    l.dropped = false := by
  induction run generalizing n c with
  | made hm =>
    obtain ⟨-, rfl⟩ := make_eq_ok_iff.1 hm
    rfl
  | @step l l' h now e fx run hle hs ih =>
    rcases (stepped_of_step hs).dropped_eq with hd | ⟨-, hnone, errands, rfl⟩
    · rw [hd]
      rcases (stepped_of_step hs).wishes hc with rfl | ⟨⟨c', hc', -⟩, -⟩
      · by_contra hdropped
        rw [Bool.not_eq_false] at hdropped
        simp [Locker.step, hdropped] at hs
      · exact ih hc'
    · rcases (stepped_of_step hs).wishes hc with hcall | ⟨⟨c', hc', -⟩, -⟩
      · cases hcall
      · rw [caller?, hnone] at hc'
        cases hc'

end Locker

end LeaseLock
