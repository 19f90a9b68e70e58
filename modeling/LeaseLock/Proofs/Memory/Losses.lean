import LeaseLock.Proofs.Locker.Renewal
import LeaseLock.Proofs.Memory.Exclusion
import LeaseLock.Proofs.Memory.Upkeep

/-!
# Locks that count as lost

A lock counts as lost when the store says so, or when no tick has succeeded for a whole lease. The
loop does not hear of a caller's refresh (`Event.pushes`), which moves the end of the record, too.

**The invariant** (`Dated`). While a lock is being renewed, its own record lasts at most a lease
from the latest tick that succeeded, or exactly a lease from some caller's refresh.

Main result: `live_at_loss_iff`, which says when a lock counts as lost though its record is live.
-/

namespace LeaseLock

/-- A caller's refresh has succeeded. -/
def Locker.Event.pushes : Locker.Event → Bool
  | .answer (.caller _) (.refresh (.ok ())) _ => true
  | _ => false

theorem Locker.Event.renews_of_pushes {e : Locker.Event} (h : e.pushes = true) :
    e.renews = true := by
  unfold pushes at h
  split at h
  · rfl
  · cases h

namespace Memory

open Locker (Entry History AtRest)
open Store
open World (Move Kept Chronicle Act deed_of_step)

variable {s s' : Store} {i : Nat} {now : Instant} {l l' : Locker} {h news : History}
  {r : Record} {t : Ticker}

def Dated (s : Store) (l : Locker) (h : History) : Prop :=
  ∀ t r, l.phase = .held → l.ticker = some t → s.record? l.options.name = some r →
    r.owner = l.options.owner → r.expires ≤ l.options.lease.after t.renewed ∨
      ∃ x ∈ h, x.event.pushes = true ∧ r.expires = l.options.lease.after x.time

theorem Dated.move (run : Locker.Run l h) (hrest : AtRest l) (hd : Dated s l h)
    (m : Move i now s l s' l' news) : Dated s' l' (news ++ h) := by
  intro t₁ r hp ht₁ hr hown
  have ho := m.options
  rw [ho] at hr hown ⊢
  have before : l.phase = .held → s.record? l.options.name = some r →
      (∃ t, l.ticker = some t ∧ t₁.renewed = t.renewed) →
      r.expires ≤ l.options.lease.after t₁.renewed ∨
        ∃ x ∈ news ++ h, x.event.pushes = true ∧ r.expires = l.options.lease.after x.time := by
    rintro hp hr ⟨t, ht, hrn⟩
    rw [hrn]
    refine (hd t r hp ht hr hown).imp_right ?_
    rintro ⟨x, hx, hpush⟩
    exact ⟨x, List.mem_append_right _ hx, hpush⟩
  cases (upkeep_of_move run hrest m).2 with
  | steady hst => exact before (hst.phase ▸ hp) hr ⟨t₁, hst.ticker ▸ ht₁, rfl⟩
  | granted hg _ _ ht =>
    rw [record?_of_granted hg] at hr
    rw [ht] at ht₁
    cases hr
    cases ht₁
    exact .inl (Nat.le_refl _)
  | pushed hph hst hx =>
    rcases refresh_written s now l.options with ⟨hok, hrec⟩ | ⟨e, herr⟩
    · rw [hrec] at hr
      rw [hok] at hx
      cases hr
      exact .inr ⟨_, List.mem_append_left _ hx, rfl, rfl⟩
    · rw [herr] at hr
      exact before hph hr ⟨t₁, hst.ticker ▸ ht₁, rfl⟩
  | ticked hph ht _ hrn _ _ _ ht' =>
    rw [ht'] at ht₁
    rcases refresh_written s now l.options with ⟨hok, hrec⟩ | ⟨e, herr⟩
    · rw [hrec] at hr
      rw [hok] at ht₁
      cases hr
      cases ht₁
      exact .inl (Nat.le_refl _)
    · have hne : e ≠ .notHeld := ne_notHeld_of_refresh (congrArg Prod.snd herr)
      rw [herr] at hr ht₁
      exact before hph hr ⟨_, ht, (((Ticker.settle_error _ _ _ hne).2 t₁ ht₁).2).trans hrn⟩
  | left hleft =>
    rw [hleft.phase] at hp
    cases hp

theorem dated_kept : Kept (fun _ : Store => True) Parted (fun o o' => o.owner ≠ o'.owner)
    fun _ _ s v h => ∀ l ∈ v, AtRest l ∧ Dated s l h where
  start _ := by simp
  make _ hm := by
    intro l hl
    obtain rfl := Option.some.inj hl
    obtain ⟨-, rfl⟩ := Locker.make_eq_ok_iff.1 hm
    exact ⟨Locker.atRest_make hm, nofun⟩
  elapse hq _ := hq
  meddle hq ho l hl := by
    refine ⟨(hq l hl).1, fun t r hp ht hr => ?_⟩
    rw [record?_of_parted ho] at hr
    exact (hq l hl).2 t r hp ht hr
  move run _ hq m l hl := by
    obtain rfl := Option.some.inj hl
    obtain ⟨hrest, hd⟩ := hq _ rfl
    exact ⟨(upkeep_of_move run hrest m).1, hd.move run hrest m⟩
  call hq _ ha hb l hl := by
    rw [begin_eq] at hb
    cases hb
    refine ⟨(hq l hl).1, fun t r hp ht hr hown => ?_⟩
    exact (hq l hl).2 t r hp ht (record?_of_answer (hown ▸ ha l hl) hr) hown
  cut hq _ := hq

/-! ## Losses -/

/-- A move with which a lock comes to count as lost is a tick that failed. If the record is live all
the same, it was a caller that refreshed it. -/
theorem Dated.lost (run : Locker.Run l h) (hrest : AtRest l) (hd : Dated s l h)
    (m : Move i now s l s' l' news) (hn : l.health.isLost = false)
    (hlost : l'.health.isLost = true) :
    l'.phase = .held ∧ ∀ r, s'.record? l.options.name = some r → r.owner = l.options.owner →
      now < r.expires →
      ∃ x ∈ h, x.event.pushes = true ∧ r.expires = l.options.lease.after x.time := by
  have changed : l'.health ≠ l.health := by
    intro heq
    rw [heq, hn] at hlost
    cases hlost
  cases (upkeep_of_move run hrest m).2 with
  | steady hst | pushed _ hst => exact absurd hst.health changed
  | granted _ _ hh =>
    rw [hh] at hlost
    cases hlost
  | left hleft =>
    rcases hleft.renewal with ⟨hh, -⟩ | ⟨-, hh, -⟩
    · rw [hh] at hlost
      cases hlost
    · exact absurd hh changed
  | @ticked _ _ t t' hph ht _ hrn _ hp hh =>
    refine ⟨hp, fun r hr hown hlive => ?_⟩
    rcases refresh_written s now l.options with ⟨hok, -⟩ | ⟨e, herr⟩
    · rw [hok] at hh
      rw [hh] at hlost
      cases hlost
    · have he := congrArg Prod.snd herr
      obtain ⟨⟨h₁, hsome, -, hcause⟩, -⟩ :=
        t'.settle_error l.options.lease now (ne_notHeld_of_refresh he)
      rw [herr] at hr hh
      rw [hh, hsome, Option.getD_some] at hlost
      rcases hcause hlost with ⟨loss, rfl⟩ | hle
      · rcases refresh_error he with ⟨_, h⟩ | ⟨_, h⟩ | ⟨-, hno⟩
        · cases h
        · cases h
        · exact absurd hown (hno r hr hlive)
      · -- a whole lease has passed since the latest tick that succeeded
        have hover : l.options.lease.after t.renewed ≤ now := by
          have hpos := (Options.check_eq_ok_iff.1 run.check).lease_pos
          rw [hrn] at hle
          have hbefore := Nat.lt_of_sub_pos (Nat.lt_of_lt_of_le hpos hle)
          rw [Duration.after, Nat.add_comm]
          exact Nat.add_le_of_le_sub (Nat.le_of_lt hbefore) hle
        refine (hd t r hph ht hr hown).resolve_left fun hends => ?_
        exact absurd (Nat.lt_of_lt_of_le hlive (Nat.le_trans hends hover)) (Nat.lt_irrefl _)

variable {w w' : World Store} {c : Chronicle} {act : Act} {reports : List World.Report}

/-- **When a lock comes to count as lost, its record is live exactly if a caller has refreshed it
less than a lease ago.** -/
theorem live_at_loss_iff (run : World.Run (fun _ => True) Parted w c)
    (owners : (w'.lockers.map (·.options.owner)).Nodup) (hact : act.isHonest = true)
    (hs : w.step act = some (w', reports)) (hl : w.lockers[i]? = some l)
    (hl' : w'.lockers[i]? = some l') (hn : l.health.isLost = false)
    (hlost : l'.health.isLost = true) :
    w'.service.liveOwner? w'.now l'.options.name = some l'.options.owner ↔
      ∃ x ∈ w.chronicle c act i, x.event.pushes = true ∧
        w'.now < l'.options.lease.after x.time := by
  have run' := run.act hact hs
  have d := deed_of_step (c := c) (fun _ => run.launched) hact hs
  have apart := apart_of_nodup owners
  have hne : l' ≠ l := by
    rintro rfl
    rw [hn] at hlost
    cases hlost
  obtain ⟨news, m, hnow, hc⟩ := d.move (fun _ => run.grounded) hl hl' hne
  have lrun := (run.told.run hl).1
  obtain ⟨hrest, hd⟩ := dated_kept.run run (d.apart apart) i l hl
  obtain ⟨hp, hpushed⟩ := hd.lost lrun hrest m hn hlost
  rw [m.options, hnow]
  constructor
  · intro hlive
    obtain ⟨r, hr, hlt, hown⟩ := liveOwner?_eq_some_iff.1 hlive
    obtain ⟨x, hx, hpush, hends⟩ := hpushed r hr hown hlt
    exact ⟨x, hc ▸ List.mem_append_right _ hx, hpush, hends ▸ hlt⟩
  · rintro ⟨x, hx, hpush, hlt⟩
    obtain ⟨t, ht, hle⟩ :=
      (run'.told.run hl').1.exists_renewed hx (Locker.Event.renews_of_pushes hpush)
    have entitled : Locker.Entitled l' (w.chronicle c act i) w'.now := by
      refine ⟨hp, t, ht, ?_⟩
      rw [m.options, hnow]
      exact Nat.lt_of_lt_of_le hlt (Nat.add_le_add_right hle _)
    have hlive := liveOwner?_of_entitled run' owners hl' entitled
    rwa [m.options, hnow] at hlive

/-- What has come about, with the store changed from outside. -/
def meddled (r : World Store × Chronicle) (f : Store → Store) : World Store × Chronicle :=
  ({ r.1 with service := f r.1.service }, r.2)

/-- A tick of the first locker has failed, and its owner can reach the store again. -/
def rejoined : World Store × Chronicle :=
  meddled ((World.replay takenAndCutOff
    [.elapse 5000000000, .locker 0 .tick 0, .elapse 7000000000]).get rfl) (·.rejoin "a")

/-- A caller has refreshed the record, and the owner has been cut off once more. -/
def pushedAndCutOff : World Store × Chronicle :=
  meddled ((World.replay rejoined [.locker 0 (.call 1 .refresh) 0]).get rfl) (·.isolate "a")

/-- The next tick of the first locker falls due. -/
def lossDue : World Store × Chronicle :=
  (World.replay pushedAndCutOff [.elapse 10000000000]).get rfl

theorem run_lossDue : World.Run (fun _ => True) Parted lossDue.1 lossDue.2 := by
  have late := run_takenAndCutOff.replay _ (Option.some_get (x := World.replay takenAndCutOff
    [.elapse 5000000000, .locker 0 .tick 0, .elapse 7000000000]) rfl).symm
  have run : World.Run (fun _ => True) Parted rejoined.1 rejoined.2 :=
    late.meddle ⟨"a", .inr rfl⟩
  have pushed := run.replay [.locker 0 (.call 1 .refresh) 0] (Option.some_get rfl).symm
  have run : World.Run (fun _ => True) Parted pushedAndCutOff.1 pushedAndCutOff.2 :=
    pushed.meddle ⟨"a", .inl rfl⟩
  exact run.replay _ (Option.some_get rfl).symm

theorem live_at_loss_iff_pushed : ∃ (w' : World Store) (reports : List World.Report)
    (l l' : Locker), lossDue.1.step (.locker 0 .tick 0) = some (w', reports) ∧
      lossDue.1.lockers[0]? = some l ∧ w'.lockers[0]? = some l' ∧
      l.health.isLost = false ∧ l'.health.isLost = true ∧
      w'.service.liveOwner? w'.now l'.options.name = some l'.options.owner := by
  have step := (Option.some_get (x := lossDue.1.step (.locker 0 .tick 0)) rfl).symm
  have owners : (["a", "b"] : List String).Nodup := by decide
  have hiff := live_at_loss_iff (i := 0) run_lossDue (by exact owners) rfl step rfl rfl rfl rfl
  have pushed : ⟨7000000000, .answer (.caller 1) (.refresh (.ok ())) 0,
      [.returned 1 (.ok .done)]⟩ ∈ lossDue.1.chronicle lossDue.2 (.locker 0 .tick 0) 0 :=
    .tail _ (.tail _ (.head _))
  exact ⟨_, _, _, _, step, rfl, rfl, rfl, rfl, hiff.2 ⟨_, pushed, rfl, by decide⟩⟩

/-- **A lock may come to count as lost though its record is live.** -/
theorem live_at_loss : ∃ (w' : World Store) (reports : List World.Report) (l l' : Locker),
    World.Run (fun _ => True) Parted lossDue.1 lossDue.2 ∧
      lossDue.1.step (.locker 0 .tick 0) = some (w', reports) ∧
      (w'.lockers.map (·.options.owner)).Nodup ∧ lossDue.1.lockers[0]? = some l ∧
      w'.lockers[0]? = some l' ∧ l.health.isLost = false ∧ l'.health.isLost = true ∧
      w'.service.liveOwner? w'.now l'.options.name = some l'.options.owner := by
  have step := (Option.some_get (x := lossDue.1.step (.locker 0 .tick 0)) rfl).symm
  have owners : (["a", "b"] : List String).Nodup := by decide
  exact ⟨_, _, _, _, run_lossDue, step, by exact owners, rfl, rfl, rfl, rfl, by decide⟩

end Memory

end LeaseLock
