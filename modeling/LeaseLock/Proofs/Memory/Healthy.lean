import LeaseLock.Proofs.Locker.Renewal
import LeaseLock.Proofs.Memory.Exclusion
import LeaseLock.Proofs.Memory.Upkeep
import LeaseLock.Proofs.World.Pace

/-!
# Healthy locks over the store in memory

**Whole grains** (`Granular`). Ticks are taken when they fall due, but for less than a grain of the
clock. Where the interval and the lease are whole grains, a grain lies between them.

**The invariant** (`Attended`). So the next tick of a healthy lock comes less than a lease after the
latest one that succeeded, or after the lock was taken; and the record lasts beyond it
(`Tended.healthy`). A lock that is held and not healthy belongs to an owner that has been cut off,
or its lease ends where the clock does (`Tended.troubled`).

**Who is cut off.** The owners that may be cut off are given (`PartedAmong`); the others never are.

Main result: `healthy_owner`.
-/

namespace LeaseLock.Memory

open Locker (History AtRest Steady)
open Store
open World (Move Chronicle TimelyRun KeptInPace inStep roundUp le_roundUp roundUp_lt
  le_roundUp_of_inStep)

variable {P : String → Prop} {grain : Nat} {s s' : Store} {i : Nat} {now til : Instant}
  {l l' : Locker} {h news : History} {r : Record} {t t' : Ticker}

/-- One of the owners given is cut off from the store, or can reach it again. -/
def PartedAmong (P : String → Prop) (s s' : Store) : Prop :=
  ∃ owner, P owner ∧ (s' = s.isolate owner ∨ s' = s.rejoin owner)

theorem PartedAmong.parted (h : PartedAmong P s s') : Parted s s' := by
  obtain ⟨owner, -, h⟩ := h
  exact ⟨owner, h⟩

theorem PartedAmong.cutOff (h : PartedAmong P s s') (hs : ∀ o ∈ s.cutOff, P o) :
    ∀ o ∈ s'.cutOff, P o := by
  obtain ⟨owner, hp, rfl | rfl⟩ := h
  · exact List.forall_mem_cons.2 ⟨hp, hs⟩
  · exact fun o ho => hs o (List.mem_filter.1 ho).1

/-- The options leave a grain between an interval and the lease. -/
structure Granular (grain : Nat) (o : Options) : Prop where
  pos : 0 < grain
  interval : grain ≤ o.interval.nanos
  lease : o.interval.nanos + grain ≤ o.lease.nanos

theorem granular_of_check {o : Options} (h : o.check = .ok ()) (hi : grain ∣ o.interval.nanos)
    (hl : grain ∣ o.lease.nanos) : Granular grain o := by
  obtain ⟨-, -, -, hpos, hlt, -⟩ := Options.check_eq_ok_iff.1 h
  replace hlt : o.interval.nanos < o.lease.nanos := hlt
  refine ⟨Nat.pos_of_dvd_of_pos hi hpos, Nat.le_of_dvd hpos hi, ?_⟩
  obtain ⟨a, ha⟩ := hi
  obtain ⟨b, hb⟩ := hl
  rw [ha, hb] at hlt ⊢
  have hab : a + 1 ≤ b := Nat.lt_of_mul_lt_mul_left hlt
  calc grain * a + grain = grain * (a + 1) := (Nat.mul_succ ..).symm
    _ ≤ grain * b := Nat.mul_le_mul_left grain hab

/-- After a tick that is late by less than an interval, the next one is due within an interval. -/
theorem nextDue_bounds {every : Duration} {due now : Nat} (hdue : due ≤ now)
    (hlate : now < due + every.nanos) :
    now ≤ Ticker.nextDue every due now ∧ Ticker.nextDue every due now ≤ every.after now := by
  unfold Ticker.nextDue
  split
  · exact ⟨Nat.le_of_lt hlate, Nat.add_le_add_right hdue _⟩
  · have hmod : (now - due) % every.nanos < every.nanos := Nat.mod_lt _ (by omega)
    refine ⟨?_, Nat.sub_le ..⟩
    exact Nat.le_sub_of_add_le (Nat.add_le_add_left (Nat.le_of_lt hmod) now)

/-! ## The invariant -/

/-- Where the lock stands: who is healthy is covered by its record up to the next tick. -/
inductive Tended (P : String → Prop) (now : Instant) (s : Store) (l : Locker) : Prop
  | unheld : l.phase ≠ .held → Tended P now s l
  | healthy {t : Ticker} {r : Record} : l.health = .healthy → l.ticker = some t →
      t.renewed ≤ now → t.due ≤ l.options.interval.after t.renewed →
      s.record? l.options.name = some r → r.owner = l.options.owner →
      l.options.lease.after t.renewed ≤ r.expires → Tended P now s l
  | troubled : l.health ≠ .healthy →
      P l.options.owner ∨ clockRange ≤ l.options.lease.after now → Tended P now s l

theorem Tended.fresh (hh : l.health = .healthy) (ht : l.ticker = some t) (hrn : t.renewed = now)
    (hd : t.due ≤ l.options.interval.after now)
    (hr : s.record? l.options.name = some ⟨l.options.owner, l.options.lease.after now⟩) :
    Tended P now s l := by
  subst hrn
  exact .healthy hh ht (Nat.le_refl _) hd hr rfl (Nat.le_refl _)

structure Attended (P : String → Prop) (grain : Nat) (now : Instant) (s : Store) (l : Locker) :
    Prop where
  rest : AtRest l
  granular : Granular grain l.options
  /-- The next tick is not overdue by a grain. -/
  punctual : l.phase = .held → ∀ t, l.ticker = some t → now ≤ roundUp grain t.due
  tended : Tended P now s l

theorem Attended.record_of_healthy (ha : Attended P grain now s l) (hp : l.phase = .held)
    (hh : l.health = .healthy) :
    ∃ r, s.record? l.options.name = some r ∧ r.owner = l.options.owner ∧ now < r.expires := by
  cases ha.tended with
  | unheld hn => exact absurd hp hn
  | troubled hn => exact absurd hh hn
  | @healthy t r _ ht _ hd hr ho he =>
    refine ⟨r, hr, ho, ?_⟩
    calc now ≤ roundUp grain t.due := ha.punctual hp t ht
      _ < t.due + grain := roundUp_lt ha.granular.pos _
      _ ≤ t.renewed + l.options.interval.nanos + grain := Nat.add_le_add_right hd _
      _ = t.renewed + (l.options.interval.nanos + grain) := Nat.add_assoc ..
      _ ≤ l.options.lease.after t.renewed := Nat.add_le_add_left ha.granular.lease _
      _ ≤ r.expires := he

theorem Attended.elapse (ha : Attended P grain now s l) (hle : now ≤ til)
    (hd : l.phase = .held → ∀ t, l.ticker = some t → til ≤ roundUp grain t.due) :
    Attended P grain til s l where
  rest := ha.rest
  granular := ha.granular
  punctual := hd
  tended := by
    cases ha.tended with
    | unheld hn => exact .unheld hn
    | healthy hh ht hrn hdue hr ho he =>
      exact .healthy hh ht (Nat.le_trans hrn hle) hdue hr ho he
    | troubled hn hw =>
      exact .troubled hn (hw.imp_right fun h => Nat.le_trans h (Nat.add_le_add_right hle _))

/-- The store may change as long as our live record ends no earlier, or a lease from now. -/
theorem Attended.restore (ha : Attended P grain now s l)
    (hs : ∀ r, s.record? l.options.name = some r → r.owner = l.options.owner → now < r.expires →
      ∃ r', s'.record? l.options.name = some r' ∧ r'.owner = l.options.owner ∧
        (r.expires ≤ r'.expires ∨ l.options.lease.after now ≤ r'.expires)) :
    Attended P grain now s' l where
  rest := ha.rest
  granular := ha.granular
  punctual := ha.punctual
  tended := by
    by_cases hp : l.phase = .held
    · cases htd : ha.tended with
      | unheld hn => exact .unheld hn
      | troubled hn hw => exact .troubled hn hw
      | healthy hh ht hrn hd hr ho he =>
        obtain ⟨r₁, hr₁, ho₁, hl₁⟩ := ha.record_of_healthy hp hh
        obtain rfl := Option.some.inj (hr.symm.trans hr₁)
        obtain ⟨r', hr', ho', hle⟩ := hs _ hr ho hl₁
        refine .healthy hh ht hrn hd hr' ho' ?_
        rcases hle with hle | hle
        · exact Nat.le_trans he hle
        · exact Nat.le_trans (Nat.add_le_add_right hrn _) hle
    · exact .unheld hp

theorem Attended.steady (ha : Attended P grain now s l) (hrest : AtRest l') (hst : Steady l l')
    (ho : l'.options = l.options) : Attended P grain now s l' where
  rest := hrest
  granular := ho ▸ ha.granular
  punctual hp t ht := ha.punctual (hst.phase ▸ hp) t (hst.ticker ▸ ht)
  tended := by
    cases ha.tended with
    | unheld hn => exact .unheld (hst.phase ▸ hn)
    | healthy hh ht hrn hd hr hown he =>
      rw [← ho] at hd hr hown he
      exact .healthy (hst.health.trans hh) (hst.ticker.trans ht) hrn hd hr hown he
    | troubled hn hw =>
      rw [← ho] at hw
      exact .troubled (hst.health ▸ hn) hw

/-- A refresh that fails tells of an owner that is cut off, or of the end of the clock. -/
theorem Attended.troubled_of_error (ha : Attended P grain now s l) (hc : ∀ o ∈ s.cutOff, P o)
    (hp : l.phase = .held) {e : LockError} (he : (s.refresh now l.options).2 = .error e) :
    P l.options.owner ∨ clockRange ≤ l.options.lease.after now := by
  cases htd : ha.tended with
  | unheld hn => exact absurd hp hn
  | troubled _ hw => exact hw
  | healthy hh =>
    obtain ⟨r, hr, ho, hl⟩ := ha.record_of_healthy hp hh
    by_contra hn
    have hadm : s.Admits now l.options :=
      ⟨fun hm => hn (.inl (hc _ hm)), Nat.lt_of_not_le fun hle => hn (.inr hle)⟩
    rw [hadm.refresh_of_live hr hl, if_pos ho] at he
    cases he

/-- A tick that is taken when it falls due, or less than a grain later. -/
theorem Attended.ticked (ha : Attended P grain now s l) (hc : ∀ o ∈ s.cutOff, P o)
    (hrest : AtRest l') (ho : l'.options = l.options) (hp : l.phase = .held)
    (ht : l.ticker = some t) (hdue : t.due ≤ now)
    (hnext : t'.due = Ticker.nextDue l.options.interval t.due now)
    (hh' : l'.health =
      (t'.settle l.options.lease now (s.refresh now l.options).2).1.getD l.health)
    (ht' : l'.ticker = (t'.settle l.options.lease now (s.refresh now l.options).2).2) :
    Attended P grain now (s.refresh now l.options).1 l' := by
  have hlate : now < t.due + l.options.interval.nanos :=
    calc now ≤ roundUp grain t.due := ha.punctual hp t ht
      _ < t.due + grain := roundUp_lt ha.granular.pos _
      _ ≤ t.due + l.options.interval.nanos := Nat.add_le_add_left ha.granular.interval _
  obtain ⟨hfrom, hto⟩ := nextDue_bounds hdue hlate
  rw [← hnext] at hfrom hto
  have punctual : now ≤ roundUp grain t'.due :=
    Nat.le_trans hfrom (le_roundUp ha.granular.pos _)
  cases hr : (s.refresh now l.options).2 with
  | ok u =>
    rw [hr] at hh' ht'
    refine ⟨hrest, ho ▸ ha.granular, fun _ t₁ ht₁ => ?_, ?_⟩
    · rw [ht'] at ht₁
      cases ht₁
      exact punctual
    · rcases refresh_written s now l.options with ⟨-, hrec⟩ | ⟨e, h⟩
      · rw [← ho] at hto
        exact .fresh hh' ht' rfl hto (by rw [ho, hrec])
      · rw [h] at hr
        cases hr
  | error e =>
    obtain ⟨⟨hh, hsome, hnh, -⟩, hd⟩ :=
      t'.settle_error l.options.lease now (ne_notHeld_of_refresh hr)
    rw [hr] at hh' ht'
    refine ⟨hrest, ho ▸ ha.granular, fun _ t₁ ht₁ => ?_, .troubled ?_ ?_⟩
    · rw [(hd t₁ (ht'.symm.trans ht₁)).1]
      exact punctual
    · rwa [hh', hsome]
    · rw [ho]
      exact ha.troubled_of_error hc hp hr

theorem Attended.move (run : Locker.Run l h) (ha : Attended P grain now s l)
    (hc : ∀ o ∈ s.cutOff, P o) (m : Move i now s l s' l' news) : Attended P grain now s' l' := by
  obtain ⟨hrest, hu⟩ := upkeep_of_move run ha.rest m
  have ho := m.options
  have granular : Granular grain l'.options := ho ▸ ha.granular
  cases hu with
  | steady hst => exact ha.steady hrest hst ho
  | granted hr hp hh ht =>
    refine ⟨hrest, granular, fun _ t ht' => ?_, ?_⟩
    · obtain rfl := Option.some.inj (ht'.symm.trans ht)
      exact Nat.le_trans (Nat.le_add_right _ _) (le_roundUp granular.pos _)
    · exact .fresh hh ht rfl (ho ▸ Nat.le_refl _) (by rw [ho, record?_of_granted hr])
  | pushed _ hst =>
    refine (ha.steady hrest hst ho).restore fun r hr hown hl => ?_
    rw [ho] at hr hown ⊢
    rcases refresh_written s now l.options with ⟨-, hrec⟩ | ⟨e, h⟩
    · exact ⟨_, hrec, rfl, .inr (Nat.le_refl _)⟩
    · rw [h]
      exact ⟨r, hr, hown, .inl (Nat.le_refl _)⟩
  | ticked hp ht hdue _ hnext _ hh' ht' =>
    exact ha.ticked hc hrest ho hp ht hdue hnext hh' ht'
  | left hleft =>
    have hp : l'.phase ≠ .held := by simp [hleft.phase]
    exact ⟨hrest, granular, fun h => absurd h hp, .unheld hp⟩

/-! ## Every run in step -/

theorem attended_kept : KeptInPace (inStep grain) (fun s : Store => ∀ o ∈ s.cutOff, P o)
    (PartedAmong P) (fun o o' => o.owner ≠ o'.owner) fun _ now s v _ =>
      (∀ o ∈ s.cutOff, P o) ∧ ∀ l ∈ v, Granular grain l.options → Attended P grain now s l where
  start hs := ⟨hs, by simp⟩
  make := by
    rintro i now s o l ⟨hc, -⟩ hm
    refine ⟨hc, fun l' hl' hg => ?_⟩
    obtain rfl := Option.some.inj hl'
    have hp : l.phase ≠ .held := by simp [(Locker.make_eq_ok_iff.1 hm).2]
    exact ⟨Locker.atRest_make hm, hg, fun h => absurd h hp, .unheld hp⟩
  meddle := by
    rintro i now s s' v h ⟨hc, ha⟩ ho
    refine ⟨ho.cutOff hc, fun l hl hg => (ha l hl hg).restore fun r hr hown _ => ?_⟩
    exact ⟨r, (record?_of_parted ho.parted _).trans hr, hown, .inl (Nat.le_refl _)⟩
  move := by
    rintro i now s s' l l' h news run - ⟨hc, ha⟩ m
    refine ⟨by rwa [cutOff_of_move m], fun l₁ hl hg => ?_⟩
    obtain rfl := Option.some.inj hl
    rw [m.options] at hg
    exact (ha l rfl hg).move run hc m
  call := by
    rintro i now s s' v h site op r ⟨hc, ha⟩ - hap hb
    rw [begin_eq] at hb
    cases hb
    refine ⟨by rwa [cutOff_answer], fun l hl hg => ?_⟩
    refine (ha l hl hg).restore fun r hr hown hlive => ?_
    exact ⟨r, record?_answer hr hlive (hown ▸ hap l hl) op, hown, .inl (Nat.le_refl _)⟩
  cut hq _ := hq
  elapse := by
    rintro i w h til ⟨hc, ha⟩ hle hp
    refine ⟨hc, fun l hl hg => (ha l hl hg).elapse hle fun hph t ht => ?_⟩
    exact le_roundUp_of_inStep hp hl ht ((ha l hl hg).rest.resting t ht)
      ((ha l hl hg).punctual hph t ht)

variable {w : World Store} {c : Chronicle}

end LeaseLock.Memory
