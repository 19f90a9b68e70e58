import LeaseLock.Proofs.Locker.Outcomes
import LeaseLock.Proofs.Memory.Upkeep
import LeaseLock.Proofs.Options
import LeaseLock.Proofs.World.Homes

/-!
# Exclusion over the store in memory

**The invariant** (`Covered`). As long as the lease of a held locker has not run out since its
latest renewal, the record of its name is its own and ends no earlier than that lease.

**What happens elsewhere** does not touch it: other owners leave a live record alone
(`Store.record?_answer`), and cutting an owner off changes no record.

Main results: `entitled_owner`, by which at most one locker of a name is entitled at any instant,
and `takes_owner_or_overdue`, on the lockers that are told that they have the lock.
-/

namespace LeaseLock.Memory

open Locker (Event Effect History Entitled Takes Unasked renewed? renewed?_cons_answer
  renewed?_cons_of_not_isAnswer)
open Store
open World (Move Kept Prompt Apart Chronicle)

variable {s s' : Store} {i : Nat} {now : Instant} {l l' : Locker} {h news : History}
  {v : Option Locker}

instance : Prompt Store where
  never_due _ _ _ _ _ _ _ hd := by cases hd

/-- An owner is cut off from the store, or can reach it again. -/
def Parted (s s' : Store) : Prop := ∃ owner, s' = s.isolate owner ∨ s' = s.rejoin owner

theorem record?_of_parted (h : Parted s s') (name : String) : s'.record? name = s.record? name := by
  obtain ⟨owner, rfl | rfl⟩ := h
  · rw [record?_isolate]
  · rw [record?_rejoin]

/-- The record of an entitled locker is its own, and does not end before its lease. -/
def Covered (now : Instant) (s : Store) (l : Locker) (h : History) : Prop :=
  l.phase = .held → ∀ t, renewed? h = some t → now < l.options.lease.after t →
    ∃ r, s.record? l.options.name = some r ∧ r.owner = l.options.owner ∧
      l.options.lease.after t ≤ r.expires

theorem Covered.congr (hc : Covered now s l h) (hp : l'.phase = .held → l.phase = .held)
    (ho : l'.options = l.options) {h' : History} (hr : renewed? h' = renewed? h) :
    Covered now s l' h' := by
  intro hp' t ht hlt
  rw [ho] at hlt ⊢
  rw [hr] at ht
  exact hc (hp hp') t ht hlt

theorem Covered.answered {l₁ : Locker} {e : Event} {fx : List Effect} {p : Party} {op : Op}
    {draw : Nat} (run : Locker.Run l h) (hc : Covered now s l h) (he : e.isAnswer = false)
    (hs : l.step now e = some (l₁, [.start p op]))
    (ha : l₁.answer now p (s.answer now l.options op).2 draw = some (l', fx)) :
    Covered now (s.answer now l.options op).1 l'
      (⟨now, .answer p (s.answer now l.options op).2 draw, fx⟩ :: ⟨now, e, [.start p op]⟩ ::
        h) := by
  obtain ⟨hsd, hso, hph, hb⟩ := run.sole_of_start hs
  obtain ⟨hout, hh⟩ := Locker.heard_of_answer ha
  obtain ⟨-, -, -, hl⟩ := hh.ends hsd hout
  have ho : l'.options = l.options := hh.options.trans (Locker.stepped_of_step hs).options
  rw [hph] at hl
  intro hheld t ht hlt
  rw [hheld] at hl
  rw [ho] at hlt ⊢
  rw [renewed?_cons_answer, renewed?_cons_of_not_isAnswer he] at ht
  have hop : op ≠ .release := by
    rintro rfl
    cases hl
  rcases answer_cases s now l.options hop with ⟨hr, hn⟩ | ⟨hs', hn⟩
  · -- the record has just been written
    rw [if_pos hn] at ht
    obtain rfl := Option.some.inj ht
    exact ⟨_, hr, rfl, Nat.le_refl _⟩
  · -- nothing has changed, so the locker was held before
    rw [Answer.leaves_of_not_renews hn] at hl
    rw [if_neg (by simp [hn])] at ht
    rw [hs']
    refine hc (hb.elim (fun hb => ?_) fun h => absurd h hop) t ht hlt
    rw [hb]
    cases op with
    | refresh => rfl
    | acquire => cases hl
    | release => exact absurd rfl hop

/-- A move of a locker keeps it covered. -/
theorem Covered.move (run : Locker.Run l h) (hc : Covered now s l h)
    (m : Move i now s l s' l' news) : Covered now s' l' (news ++ h) := by
  cases m with
  | moved he hs _ =>
    refine hc.congr (run.held_of_held he hs) (Locker.stepped_of_step hs).options ?_
    exact renewed?_cons_of_not_isAnswer he h
  | cut he hs _ hsv =>
    obtain rfl : s' = s := hsv.elim id fun ⟨_, _, _, h⟩ => h
    refine hc.congr (run.held_of_held he hs) (Locker.stepped_of_step hs).options ?_
    exact renewed?_cons_of_not_isAnswer he h
  | asked _ hs hb hn => exact (answered_of_start run hs hb hn).elim
  | answered he hs hb ha =>
    rw [begin_eq] at hb
    cases hb
    exact hc.answered run he hs ha

/-- A live record is left alone by the calls of other owners. -/
theorem Covered.call {o : Options} (hc : Covered now s l h) (ho : o.owner ≠ l.options.owner)
    (op : Op) : Covered now (s.answer now o op).1 l h := by
  intro hp t ht hlt
  obtain ⟨r, hr, hown, hle⟩ := hc hp t ht hlt
  exact ⟨r, record?_answer hr (Nat.lt_of_lt_of_le hlt hle) (by rwa [hown]) op, hown, hle⟩

theorem covered_kept : Kept (fun _ : Store => True) Parted (fun o o' => o.owner ≠ o'.owner)
    fun _ now s v h => ∀ l ∈ v, Covered now s l h where
  start _ := by simp
  make _ hm := by
    intro l hl
    obtain rfl := Option.some.inj hl
    obtain ⟨-, rfl⟩ := Locker.make_eq_ok_iff.1 hm
    intro hp
    cases hp
  elapse hc hle l hl hp t ht hlt := hc l hl hp t ht (Nat.lt_of_le_of_lt hle hlt)
  meddle hc ho l hl hp t ht hlt := by
    rw [record?_of_parted ho]
    exact hc l hl hp t ht hlt
  move run _ hc m l hl := by
    obtain rfl := Option.some.inj hl
    exact (hc _ rfl).move run m
  call hc _ ha hb l hl := by
    rw [begin_eq] at hb
    cases hb
    exact (hc l hl).call (ha l hl) _
  cut hc _ := hc

/-! ## Entitled lockers -/

variable {w : World Store} {c : Chronicle}

theorem apart_of_nodup (owners : (w.lockers.map (·.options.owner)).Nodup) :
    Apart (fun o o' => o.owner ≠ o'.owner) w := by
  intro i j l l' hij hl hl' ho
  have hi : i < (w.lockers.map (·.options.owner)).length := by
    rw [List.length_map]
    exact (List.getElem?_eq_some_iff.1 hl).1
  exact hij ((List.getElem?_inj hi owners).1 (by simp [hl, hl', ho]))

theorem liveOwner?_of_entitled (run : World.Run (fun _ => True) Parted w c)
    (owners : (w.lockers.map (·.options.owner)).Nodup) {l : Locker} (hl : w.lockers[i]? = some l)
    (he : Entitled l (c i) w.now) :
    w.service.liveOwner? w.now l.options.name = some l.options.owner := by
  obtain ⟨hp, t, ht, hlt⟩ := he
  obtain ⟨r, hr, hown, hle⟩ := covered_kept.run run (apart_of_nodup owners) i l hl hp t ht hlt
  rw [liveOwner?_of_record? hr (Nat.lt_of_lt_of_le hlt hle), hown]

theorem eq_of_liveOwner? (owners : (w.lockers.map (·.options.owner)).Nodup) {i j : Nat}
    {l l' : Locker} (hl : w.lockers[i]? = some l) (hl' : w.lockers[j]? = some l')
    (hn : l.options.name = l'.options.name)
    (ho : w.service.liveOwner? w.now l.options.name = some l.options.owner)
    (ho' : w.service.liveOwner? w.now l'.options.name = some l'.options.owner) : i = j := by
  by_contra hij
  rw [hn, ho'] at ho
  exact apart_of_nodup owners i j l l' hij hl hl' (Option.some.inj ho).symm

/-- **At most one locker of a name is entitled at any instant**, and the store names its owner. -/
theorem entitled_owner (run : World.Run (fun _ => True) Parted w c)
    (owners : (w.lockers.map (·.options.owner)).Nodup) :
    (∀ i l, w.lockers[i]? = some l → Entitled l (c i) w.now →
      w.service.liveOwner? w.now l.options.name = some l.options.owner) ∧
    ∀ i j l l', w.lockers[i]? = some l → w.lockers[j]? = some l' →
      l.options.name = l'.options.name → Entitled l (c i) w.now → Entitled l' (c j) w.now →
      i = j := by
  refine ⟨fun i l hl he => liveOwner?_of_entitled run owners hl he, ?_⟩
  intro i j l l' hl hl' hn he he'
  exact eq_of_liveOwner? owners hl hl' hn (liveOwner?_of_entitled run owners hl he)
    (liveOwner?_of_entitled run owners hl' he')

/-- Options of the owner given. -/
def ownedBy (owner : String) : Options := { owner := owner }

/-- Two lockers ask for one lock; the first one gets it and renews it. -/
def contention : List World.Act :=
  [.create (ownedBy "a"), .create (ownedBy "b"), .locker 0 (.call 0 .lock) 0,
    .locker 1 (.call 0 .lock) 0, .elapse 5000000000, .locker 0 .tick 0]

theorem entitled_owner_contention : ∃ (w : World Store) (c : Chronicle) (l : Locker),
    World.Run (fun _ => True) Parted w c ∧ (w.lockers.map (·.options.owner)).Nodup ∧
      w.lockers[0]? = some l ∧ Entitled l (c 0) w.now ∧
      w.service.liveOwner? w.now l.options.name = some l.options.owner := by
  have start : World.Run (fun _ => True) Parted { service := ({} : Store) } fun _ => [] :=
    .start trivial
  have run := start.replay contention (Option.some_get rfl).symm
  have owners : (["a", "b"] : List String).Nodup := by decide
  refine ⟨_, _, _, run, owners, rfl, ?entitled, (entitled_owner run owners).1 0 _ rfl ?entitled⟩
  exact ⟨rfl, 5000000000, rfl, by decide⟩

/-! ## Lockers that take the lock -/

/-- The service was not asked, and the lease has run out since the latest renewal. -/
def Overdue (l : Locker) (h : History) (now : Instant) : Prop :=
  Unasked h ∧ ∃ t, renewed? h = some t ∧ l.options.lease.after t ≤ now

theorem owner_or_overdue (run : World.Run (fun _ => True) Parted w c)
    (owners : (w.lockers.map (·.options.owner)).Nodup) {l : Locker} (hl : w.lockers[i]? = some l)
    (ht : Takes (c i) w.now) :
    l.phase = .held ∧ (w.service.liveOwner? w.now l.options.name = some l.options.owner ∨
      Overdue l (c i) w.now) := by
  have lrun := (run.told.run hl).1
  obtain ⟨hp, hc⟩ := ht.cases lrun
  refine ⟨hp, ?_⟩
  rcases hc with hr | hu
  · have hlt : w.now < l.options.lease.after w.now :=
      Nat.lt_add_of_pos_right (Options.check_eq_ok_iff.1 lrun.check).lease_pos
    exact .inl (liveOwner?_of_entitled run owners hl ⟨hp, w.now, hr, hlt⟩)
  · obtain ⟨t, hr⟩ := lrun.renewed_of_held hp
    by_cases hlt : w.now < l.options.lease.after t
    · exact .inl (liveOwner?_of_entitled run owners hl ⟨hp, t, hr, hlt⟩)
    · exact .inr ⟨hu, t, hr, Nat.le_of_not_lt hlt⟩

/-- **A locker that is told that it has the lock** has a live record, unless it was held already and
its lease has run out since. Two lockers are told so of one name at one instant only if that is true
of one of them. -/
theorem takes_owner_or_overdue (run : World.Run (fun _ => True) Parted w c)
    (owners : (w.lockers.map (·.options.owner)).Nodup) :
    (∀ i l, w.lockers[i]? = some l → Takes (c i) w.now →
      l.phase = .held ∧ (w.service.liveOwner? w.now l.options.name = some l.options.owner ∨
        Overdue l (c i) w.now)) ∧
    ∀ i j l l', i ≠ j → w.lockers[i]? = some l → w.lockers[j]? = some l' →
      l.options.name = l'.options.name → Takes (c i) w.now → Takes (c j) w.now →
      Overdue l (c i) w.now ∨ Overdue l' (c j) w.now := by
  refine ⟨fun i l hl ht => owner_or_overdue run owners hl ht, ?_⟩
  intro i j l l' hij hl hl' hn ht ht'
  obtain ⟨-, ho | hd⟩ := owner_or_overdue run owners hl ht
  · obtain ⟨-, ho' | hd'⟩ := owner_or_overdue run owners hl' ht'
    · exact absurd (eq_of_liveOwner? owners hl hl' hn ho ho') hij
    · exact .inr hd'
  · exact .inl hd

/-- The first of two lockers takes the lock, and is then cut off. -/
def taken : World Store × Chronicle :=
  (World.replay ({ service := {} }, fun _ => [])
    [.create (ownedBy "a"), .create (ownedBy "b"), .locker 0 (.call 0 .lock) 0]).get rfl

def takenAndCutOff : World Store × Chronicle :=
  ({ taken.1 with service := taken.1.service.isolate "a" }, taken.2)

/-- Two ticks of the first locker have failed, the second one takes the lock, and the first one is
asked for it once more. -/
def takenTwice : World Store × Chronicle :=
  (World.replay takenAndCutOff
    [.elapse 5000000000, .locker 0 .tick 0, .elapse 10000000000, .locker 0 .tick 0,
      .locker 1 (.call 0 .lock) 0, .locker 0 (.call 1 .lock) 0]).get rfl

theorem run_takenAndCutOff :
    World.Run (fun _ => True) Parted takenAndCutOff.1 takenAndCutOff.2 := by
  have start : World.Run (fun _ => True) Parted { service := ({} : Store) } fun _ => [] :=
    .start trivial
  have first : World.Run (fun _ => True) Parted taken.1 taken.2 :=
    start.replay _ (Option.some_get rfl).symm
  exact first.meddle ⟨"a", .inl rfl⟩

theorem run_takenTwice : World.Run (fun _ => True) Parted takenTwice.1 takenTwice.2 :=
  run_takenAndCutOff.replay _ (Option.some_get rfl).symm

theorem takes_owner_or_overdue_takenTwice : ∃ l, takenTwice.1.lockers[0]? = some l ∧
    Takes (takenTwice.2 0) takenTwice.1.now ∧ l.phase = .held ∧
    (takenTwice.1.service.liveOwner? takenTwice.1.now l.options.name = some l.options.owner ∨
      Overdue l (takenTwice.2 0) takenTwice.1.now) := by
  have owners : (["a", "b"] : List String).Nodup := by decide
  have takes : Takes (takenTwice.2 0) takenTwice.1.now :=
    ⟨_, _, 1, .lock, rfl, rfl, List.mem_cons_self, rfl, rfl⟩
  exact ⟨_, rfl, takes, (takes_owner_or_overdue run_takenTwice owners).1 0 _ rfl takes⟩

/-- **Two lockers may be told that they have the lock**, though the record is that of one of them.
-/
theorem two_take : ∃ (w : World Store) (c : Chronicle) (l l' : Locker),
    World.Run (fun _ => True) Parted w c ∧ (w.lockers.map (·.options.owner)).Nodup ∧
      w.lockers[0]? = some l ∧ w.lockers[1]? = some l' ∧ l.options.name = l'.options.name ∧
      Takes (c 0) w.now ∧ Takes (c 1) w.now ∧
      w.service.liveOwner? w.now l.options.name ≠ some l.options.owner := by
  have owners : (["a", "b"] : List String).Nodup := by decide
  refine ⟨_, _, _, _, run_takenTwice, owners, rfl, rfl, rfl, ?_, ?_, by decide⟩
  · exact ⟨_, _, 1, .lock, rfl, rfl, List.mem_cons_self, rfl, rfl⟩
  · exact ⟨_, _, 0, .lock, rfl, rfl, List.mem_cons_self, rfl, rfl⟩

end LeaseLock.Memory
