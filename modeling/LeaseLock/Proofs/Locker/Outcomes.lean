import LeaseLock.Proofs.Locker.Waiting

/-!
# What a call to take the lock returns

**Success** (`Takes`). The latest thing that happened at a locker is that a call to take the lock
returned with success. Either the service has just granted the lock, or the locker was held
already, and the service was not asked (`Takes.cases`).

**Renewal** (`Run.renewed_of_held`). A held locker was renewed at some time: at least when it was
taken.
-/

namespace LeaseLock.Locker

variable {l l' : Locker} {h : History} {now : Instant} {e : Event} {fx : List Effect} {p : Party}
  {n : Nat} {a : Answer}

/-- A call to take the lock has returned with success at `now`, and nothing has happened since. -/
def Takes (h : History) (now : Instant) : Prop :=
  ∃ x past n verb, h = x :: past ∧ x.time = now ∧ .returned n (.ok .done) ∈ x.effects ∧
    asked? h n = some verb ∧ verb.op = some .acquire

/-- The latest step of the locker needed no answer of the service. -/
def Unasked (h : History) : Prop := ∃ x past, h = x :: past ∧ x.event.isAnswer = false

/-- A turn in which a call to take the lock succeeds finds the locker held. -/
theorem Turn.takes (t : Turn l now p l' fx) (hr : .returned n (.ok .done) ∈ fx) :
    ∃ c, l.caller? n = some c ∧ (c.verb.op = some .acquire → l'.phase = .held) := by
  cases t with
  | @served m c r hc _ _ hr' =>
    obtain ⟨rfl, rfl⟩ : n = m ∧ .ok .done = r := by simpa using hr
    refine ⟨c, hc, ?_⟩
    intro hop
    show l.phase = .held
    cases hv : c.verb with
    | lock | acquire =>
      rw [hv] at hr'
      cases hp : l.phase <;> simp [atOnce, hp] at hr' ⊢
    | unlock | refresh | state =>
      rw [hv] at hop
      cases hop
  | @surrendered m c hc _ hv _ =>
    obtain rfl : n = m := by simpa using hr
    refine ⟨c, hc, ?_⟩
    intro hop
    rw [hv] at hop
    cases hop
  | attempted | refreshed | unlocked | ticked | ended | returnedBack | closed => simp at hr

theorem Heard.takes (t : Heard l now p a l' fx) (hr : .returned n (.ok .done) ∈ fx) :
    ∃ c, l.caller? n = some c ∧
      (c.verb.op = some .acquire → a.renews = true ∧ l'.phase = .held) := by
  cases t with
  | @granted m c hc _ =>
    obtain rfl : n = m := by simpa using hr
    exact ⟨c, hc, fun _ => ⟨rfl, rfl⟩⟩
  | refused | napped | ticked | closed => simp at hr
  | @refreshed m c r hc hv | @released m c r hc hv =>
    obtain rfl : n = m := by
      simp only [List.mem_singleton, Effect.returned.injEq] at hr
      exact hr.1
    refine ⟨c, hc, ?_⟩
    intro hop
    rw [hv] at hop
    cases hop

/-- **A call to take the lock succeeds** by a grant, or because the locker is held already. -/
theorem Takes.cases (run : Run l h) (ht : Takes h now) :
    l.phase = .held ∧ (renewed? h = some now ∨ Unasked h) := by
  obtain ⟨x, past, n, verb, rfl, hx, hr, hv, hop⟩ := ht
  cases run with
  | @step l₀ _ _ t e fx run _ hs =>
    cases hx
    have wants : ∀ {verb}, Wishes l₀ e n verb → verb.op = some .acquire := by
      intro verb hw
      obtain rfl := Option.some.inj ((hw.asked? fun _ => run.asked?).symm.trans hv)
      exact hop
    have unasked : e.isAnswer = false → Unasked (⟨t, e, fx⟩ :: past) := fun he => ⟨_, _, rfl, he⟩
    cases stepped_of_step hs with
    | joined | cancelled | lapsed | dropped | cut | sent => simp at hr
    | turned ha _ ht =>
      obtain ⟨c, hc, hp⟩ := ht.takes hr
      exact ⟨hp (wants (ha.wishes hc)), .inr (unasked (isAnswer_of_arrival ha))⟩
    | resumed _ ht =>
      obtain ⟨c, hc, hp⟩ := ht.takes hr
      exact ⟨hp (wants (wishes_of_caller hc nofun)), .inr (unasked rfl)⟩
    | answered _ hh =>
      obtain ⟨c, hc, hp⟩ := hh.takes hr
      obtain ⟨hrn, hp⟩ := hp (wants (wishes_of_caller hc nofun))
      refine ⟨hp, .inl ?_⟩
      rw [renewed?_cons_answer, if_pos hrn]
    | @expired _ _ op _ _ _ _ hh =>
      -- a call that was cut off counts as failed, and grants nothing
      obtain ⟨c, hc, hp⟩ := hh.takes ((List.mem_cons.1 hr).resolve_left nofun)
      obtain ⟨hrn, -⟩ := hp (wants (wishes_of_caller hc nofun))
      cases op <;> cases hrn

theorem Run.renewed_of_held (run : Run l h) (hp : l.phase = .held) : ∃ t, renewed? h = some t := by
  induction run with
  | made hm =>
    obtain ⟨-, rfl⟩ := make_eq_ok_iff.1 hm
    cases hp
  | @step l₀ l' h now e fx run _ hs ih =>
    cases he : e.isAnswer with
    | false =>
      rw [renewed?_cons_of_not_isAnswer he]
      exact ih (run.held_of_held he hs hp)
    | true =>
      cases e with
      | answer p a draw =>
        rw [renewed?_cons_answer]
        by_cases ha : a.renews = true
        · exact ⟨now, if_pos ha⟩
        · obtain ⟨hout, hh⟩ := heard_of_answer hs
          obtain ⟨-, -, -, hl⟩ := hh.ends run.sound hout
          rw [Answer.leaves_of_not_renews (by simpa using ha)] at hl
          rw [if_neg ha]
          exact ih (hl.symm.trans hp)
      | call | resume | expire | cancel | wake | tick | drop | close => cases he

end LeaseLock.Locker
