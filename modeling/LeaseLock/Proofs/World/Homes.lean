import LeaseLock.Proofs.World.Runs

/-!
# One locker in a world

A property of one locker, of what the service keeps for it and of its history holds in every run
if it is kept by what happens at that locker, by the calls of the others and by the passing of
time.

**Prompt services** (`Prompt`). An answer comes on the spot or never, so nothing is ever on its
way.

**Kept properties** (`KeptByActs`, `Kept`). The obligations, one for each thing that can happen. A
home is viewed before its locker is made, too. Main results: `KeptByActs.deed` for one deed, and
`Kept.run`.
-/

namespace LeaseLock.World

open Locker (History latest)

variable {σ : Type} [Service σ] {w w' : World σ} {initial : σ → Prop} {outside : σ → σ → Prop}
  {c c' : Chronicle} {i j : Nat} {now : Instant} {s s' : σ} {l l' : Locker}

/-- Answers come on the spot, or never. -/
class Prompt (σ : Type) [Service σ] : Prop where
  never_due : ∀ (s : σ) (site : Site) (o : Options) (op : Op) (now landing : Instant) (a : Answer),
    (Service.begin s site o op now).2 ≠ .due landing a

theorem Run.grounded [Prompt σ] (run : Run initial outside w c) {f : Flight} (hf : f ∈ w.flights) :
    f.arrival = none := by
  cases h : f.arrival with
  | none => rfl
  | some x =>
    obtain ⟨s, o, op, now, hd⟩ := (run.launched hf).2 x.1 x.2 h
    exact absurd hd (Prompt.never_due s f.site o op now x.1 x.2)

/-- A property of a home is kept by what happens at the home, elsewhere and outside, but for the
passing of time. `apart` is what is known of the options of two lockers. -/
structure KeptByActs (initial : σ → Prop) (outside : σ → σ → Prop)
    (apart : Options → Options → Prop) (Q : Nat → Instant → σ → Option Locker → History → Prop) :
    Prop where
  start : ∀ {i s}, initial s → Q i 0 s none []
  make : ∀ {i now s o l}, Q i now s none [] → Locker.make o = .ok l → Q i now s (some l) []
  meddle : ∀ {i now s s' v h}, Q i now s v h → outside s s' → Q i now s' v h
  move : ∀ {i now s s' l l' h news}, Locker.Run l h → latest h ≤ now → Q i now s (some l) h →
    Move i now s l s' l' news → Q i now s' (some l') (news ++ h)
  call : ∀ {i now s s' v h site op r}, Q i now s v h → site.home ≠ i →
    (∀ l ∈ v, apart site.own l.options) → Service.begin s site site.own op now = (s', r) →
    Q i now s' v h
  cut : ∀ {i now s v h site op}, Q i now s v h → site.home ≠ i →
    Q i now (Service.cut s site op now) v h

/-- A property of a home is kept by all that can happen. -/
structure Kept (initial : σ → Prop) (outside : σ → σ → Prop) (apart : Options → Options → Prop)
    (Q : Nat → Instant → σ → Option Locker → History → Prop) : Prop
    extends KeptByActs initial outside apart Q where
  elapse : ∀ {i now til s v h}, Q i now s v h → now ≤ til → Q i til s v h

/-- Any two lockers have options that are apart. -/
def Apart (apart : Options → Options → Prop) (w : World σ) : Prop :=
  ∀ (i j : Nat) (l l' : Locker), i ≠ j → w.lockers[i]? = some l → w.lockers[j]? = some l' →
    apart l.options l'.options

theorem Deed.options (d : Deed w c w' c') (hl : w.lockers[i]? = some l) :
    ∃ l', w'.lockers[i]? = some l' ∧ l'.options = l.options := by
  have hi := (List.getElem?_eq_some_iff.1 hl).1
  cases d with
  | made _ _ _ hls =>
    rw [hls, List.getElem?_append_left hi]
    exact ⟨l, hl, rfl⟩
  | @moved j lj lj' _ _ hj m _ hls =>
    rw [hls, List.getElem?_set]
    split
    next hij =>
      subst hij
      obtain rfl := Option.some.inj (hl.symm.trans hj)
      exact ⟨lj', if_pos hi, m.options⟩
    · exact ⟨l, hl, rfl⟩
  | @landed _ j lj lj' _ _ _ _ _ _ _ hj ha _ hls =>
    rw [hls, List.getElem?_set]
    split
    next hij =>
      subst hij
      obtain rfl := Option.some.inj (hl.symm.trans hj)
      exact ⟨lj', if_pos hi, (Locker.heard_of_answer ha).2.options⟩
    · exact ⟨l, hl, rfl⟩
  | missed _ _ _ hls | elapsed _ _ hls =>
    rw [hls]
    exact ⟨l, hl, rfl⟩

/-- Where no answer is on its way, a locker changes only by its own moves. -/
theorem Deed.move (d : Deed w c w' c') (grounded : ∀ f ∈ w.flights, f.arrival = none)
    (hl : w.lockers[i]? = some l) (hl' : w'.lockers[i]? = some l') (hne : l' ≠ l) :
    ∃ news, Move i w.now w.service l w'.service l' news ∧ w'.now = w.now ∧
      c' i = news ++ c i := by
  have hi := (List.getElem?_eq_some_iff.1 hl).1
  have unchanged : w'.lockers[i]? ≠ w.lockers[i]? := by
    rw [hl, hl']
    simpa using hne
  cases d with
  | made _ _ _ hls => exact absurd (by rw [hls, List.getElem?_append_left hi]) unchanged
  | @moved j lj lj' news _ hj m hn hls =>
    by_cases hij : j = i
    · subst hij
      obtain rfl := Option.some.inj (hl.symm.trans hj)
      rw [hls, List.getElem?_set_self hi] at hl'
      obtain rfl := Option.some.inj hl'
      exact ⟨news, m, hn, Chronicle.add_self ..⟩
    · exact absurd (by rw [hls, List.getElem?_set_ne hij]) unchanged
  | landed hf harr => exact absurd (grounded _ hf) harr
  | missed _ _ _ hls | elapsed _ _ hls => exact absurd (by rw [hls]) unchanged

theorem Deed.apart {apart : Options → Options → Prop} (d : Deed w c w' c') (h : Apart apart w') :
    Apart apart w := by
  intro i j l l' hij hl hl'
  obtain ⟨m, hm, ho⟩ := d.options hl
  obtain ⟨m', hm', ho'⟩ := d.options hl'
  rw [← ho, ← ho']
  exact h i j m m' hij hm hm'

variable {apart : Options → Options → Prop}
  {Q : Nat → Instant → σ → Option Locker → History → Prop}

/-- What happens at another home is a call from there, or a call from there is cut off. -/
theorem KeptByActs.elsewhere (hQ : KeptByActs initial outside apart Q) {news h : History}
    {v : Option Locker} (m : Move j now s l s' l' news) (hij : j ≠ i)
    (ha : ∀ l₁ ∈ v, apart l.options l₁.options) (hq : Q i now s v h) : Q i now s' v h := by
  cases m with
  | moved => exact hq
  | cut _ _ _ hs =>
    rcases hs with rfl | ⟨site, op, hh, rfl⟩
    · exact hq
    · exact hQ.cut hq (by rwa [hh])
  | @asked _ _ p op _ _ _ _ hb | @answered _ _ _ p op _ _ _ _ _ _ hb _ =>
    have hh : Site.home ⟨j, .party p, l.options⟩ ≠ i := hij
    exact hQ.call hq hh ha hb

/-- One deed keeps the property at every home, if the passing of time does. -/
theorem KeptByActs.deed (hQ : KeptByActs initial outside apart Q) (ha : Apart apart w)
    (told : Told w c) (grounded : ∀ f ∈ w.flights, f.arrival = none) (d : Deed w c w' c')
    (elapse : w.now ≤ w'.now → Q i w.now w.service w.lockers[i]? (c i) →
      Q i w'.now w.service w.lockers[i]? (c i))
    (hq : Q i w.now w.service w.lockers[i]? (c i)) :
    Q i w'.now w'.service w'.lockers[i]? (c' i) := by
  cases d with
  | @made o l _ hm hn hsv hls =>
    rw [hn, hsv, hls]
    by_cases hi : i < w.lockers.length
    · rwa [List.getElem?_append_left hi]
    · rw [List.getElem?_eq_none (by omega), told.blank (List.getElem?_eq_none (by omega))] at hq
      rw [told.blank (List.getElem?_eq_none (by omega)), List.getElem?_append_right (by omega),
        List.getElem?_singleton]
      split
      · exact hQ.make hq hm
      · exact hq
  | @moved j l l' news _ hl m hn hls =>
    have hj := (List.getElem?_eq_some_iff.1 hl).1
    rw [hn, hls]
    by_cases hij : j = i
    · subst hij
      rw [hl] at hq
      rw [List.getElem?_set_self hj, Chronicle.add_self]
      have hrun := told.run hl
      exact hQ.move hrun.1 hrun.2 hq m
    · rw [List.getElem?_set_ne hij, Chronicle.add_of_ne c news (Ne.symm hij)]
      refine hQ.elsewhere m hij (fun l₁ hl₁ => ?_) hq
      exact ha j i l l₁ hij hl hl₁
  | landed hf harr => exact absurd (grounded _ hf) harr
  | missed hf harr => exact absurd (grounded _ hf) harr
  | elapsed hn hsv hls =>
    rw [hsv, hls]
    exact elapse hn hq

/-- **A kept property holds of every home in every run.** -/
theorem Kept.run [Prompt σ] (hQ : Kept initial outside apart Q) (run : Run initial outside w c)
    (ha : Apart apart w) (i : Nat) : Q i w.now w.service w.lockers[i]? (c i) := by
  induction run with
  | start hs => exact hQ.start hs
  | meddle _ ho ih => exact hQ.meddle (ih ha) ho
  | @act _ _ c _ _ run hact hs ih =>
    have d := deed_of_step (c := c) (fun _ => run.launched) hact hs
    have hap := d.apart ha
    refine hQ.deed hap run.told (fun _ => run.grounded) d (fun hle hq => ?_) (ih hap)
    exact hQ.elapse hq hle

end LeaseLock.World
