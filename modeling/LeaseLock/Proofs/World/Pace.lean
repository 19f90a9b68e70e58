import LeaseLock.Proofs.World.Homes

/-!
# Runs that keep pace

**Timely runs** (`TimelyRun`). Runs in which time passes only as a given pace allows.

**In step** (`inStep`). Time never passes beyond what the world waits for by itself, so that
everything that falls due happens then, or at the next instant of the grain. No renewal loop is
overtaken (`le_roundUp_of_inStep`).

**Kept properties** (`KeptInPace`). As in all runs, but time passes at the given pace only. Main
result: `KeptInPace.run`.
-/

namespace LeaseLock.World

open Locker (History)

variable {σ : Type} [Service σ] {w w' : World σ} {c : Chronicle} {initial : σ → Prop}
  {outside : σ → σ → Prop} {pace : World σ → Instant → Bool} {i : Nat} {l : Locker} {grain : Nat}

/-- The world has come about as in a run, and time has passed as the pace allows. -/
inductive TimelyRun (pace : World σ → Instant → Bool) (initial : σ → Prop)
    (outside : σ → σ → Prop) : World σ → Chronicle → Prop
  | start {s : σ} : initial s → TimelyRun pace initial outside { service := s } fun _ => []
  | act {w w' : World σ} {c : Chronicle} {act : Act} {reports : List Report} :
      TimelyRun pace initial outside w c → act.isHonest = true → w.step act = some (w', reports) →
      (w'.now = w.now ∨ pace w w'.now = true) →
      TimelyRun pace initial outside w' (w.chronicle c act)
  | meddle {w : World σ} {c : Chronicle} {s : σ} :
      TimelyRun pace initial outside w c → outside w.service s →
      TimelyRun pace initial outside { w with service := s } c

theorem TimelyRun.run (run : TimelyRun pace initial outside w c) : Run initial outside w c := by
  induction run with
  | start hs => exact .start hs
  | act _ ha hs _ ih => exact ih.act ha hs
  | meddle _ ho ih => exact ih.meddle ho

/-- What becomes of a world and its histories by the acts given, if they keep pace. -/
def replayIn (pace : World σ → Instant → Bool) :
    World σ × Chronicle → List Act → Option (World σ × Chronicle)
  | r, [] => some r
  | (w, c), act :: acts =>
    if act.isHonest then
      match w.step act with
      | some (w', _) =>
        if w'.now = w.now ∨ pace w w'.now then replayIn pace (w', w.chronicle c act) acts
        else none
      | none => none
    else none

theorem TimelyRun.replay {r : World σ × Chronicle} (run : TimelyRun pace initial outside w c)
    (acts : List Act) (hr : replayIn pace (w, c) acts = some r) :
    TimelyRun pace initial outside r.1 r.2 := by
  induction acts generalizing w c with
  | nil =>
    cases hr
    exact run
  | cons act acts ih =>
    unfold replayIn at hr
    split at hr
    next ha =>
      split at hr
      next w' rs hs =>
        split at hr
        next hp => exact ih (run.act ha hs hp) hr
        · cases hr
      · cases hr
    · cases hr

/-! ## Kept properties -/

/-- A property of a home is kept by all that can happen, if time passes at the pace given. -/
structure KeptInPace (pace : World σ → Instant → Bool) (initial : σ → Prop)
    (outside : σ → σ → Prop) (apart : Options → Options → Prop)
    (Q : Nat → Instant → σ → Option Locker → History → Prop) : Prop
    extends KeptByActs initial outside apart Q where
  elapse : ∀ {i w h til}, Q i w.now w.service w.lockers[i]? h → w.now ≤ til → pace w til = true →
    Q i til w.service w.lockers[i]? h

/-- **A property that is kept in pace holds of every home in every timely run.** -/
theorem KeptInPace.run [Prompt σ] {apart : Options → Options → Prop}
    {Q : Nat → Instant → σ → Option Locker → History → Prop}
    (hQ : KeptInPace pace initial outside apart Q) (run : TimelyRun pace initial outside w c)
    (ha : Apart apart w) (i : Nat) : Q i w.now w.service w.lockers[i]? (c i) := by
  induction run with
  | start hs => exact hQ.start hs
  | meddle _ ho ih => exact hQ.meddle (ih ha) ho
  | @act _ _ c _ _ timely hact hs hp ih =>
    have run := timely.run
    have d := deed_of_step (c := c) (fun _ => run.launched) hact hs
    have hap := d.apart ha
    refine hQ.deed hap run.told (fun _ => run.grounded) d (fun hle hq => ?_) (ih hap)
    rcases hp with hn | hp
    · rwa [hn]
    · exact hQ.elapse hq hle hp

/-! ## In step -/

omit [Service σ]

/-- Time does not pass beyond what comes next. -/
def inStep (grain : Nat) (w : World σ) (til : Instant) : Bool :=
  (w.next? grain).all fun next => til ≤ next.1

theorem le_roundUp (hg : 0 < grain) (t : Nat) : t ≤ roundUp grain t := by
  have h : t + (grain - 1) < roundUp grain t + grain := Nat.lt_div_mul_add hg
  omega

theorem roundUp_lt (hg : 0 < grain) (t : Nat) : roundUp grain t < t + grain := by
  have h : roundUp grain t ≤ t + (grain - 1) := Nat.div_mul_le_self ..
  exact Nat.lt_of_le_of_lt h (Nat.add_lt_add_left (by omega) t)

theorem earlier_le (a b : Instant × Act) :
    (earlier a b).1 ≤ a.1 ∧ (earlier a b).1 ≤ b.1 := by
  unfold earlier
  split
  next h => exact ⟨Nat.le_of_lt h, Nat.le_refl _⟩
  next h => exact ⟨Nat.le_refl _, Nat.le_of_not_lt h⟩

theorem foldl_earlier_le (as : List (Instant × Act)) (a : Instant × Act) :
    (as.foldl earlier a).1 ≤ a.1 ∧ ∀ x ∈ as, (as.foldl earlier a).1 ≤ x.1 := by
  induction as generalizing a with
  | nil => simp
  | cons b as ih =>
    obtain ⟨hle, hall⟩ := ih (earlier a b)
    obtain ⟨ha, hb⟩ := earlier_le a b
    refine ⟨Nat.le_trans hle ha, ?_⟩
    intro x hx
    rcases List.mem_cons.1 hx with rfl | hx
    · exact Nat.le_trans hle hb
    · exact hall x hx

/-- What comes next does not come after anything that the world waits for. -/
theorem exists_next? {x : Instant × Act} (hx : x ∈ w.agenda) (grain : Nat) :
    ∃ next, w.next? grain = some next ∧ next.1 ≤ max w.now (roundUp grain x.1) := by
  unfold next?
  have hmem := List.mem_map_of_mem (f := fun x : Instant × Act =>
    (max w.now (roundUp grain x.1), x.2)) hx
  cases hm : w.agenda.map fun x => (max w.now (roundUp grain x.1), x.2) with
  | nil => simp [hm] at hmem
  | cons a as =>
    rw [hm] at hmem
    refine ⟨as.foldl earlier a, rfl, ?_⟩
    rcases List.mem_cons.1 hmem with rfl | h
    · exact (foldl_earlier_le as _).1
    · exact (foldl_earlier_le as a).2 _ h

theorem mem_agenda {x : Instant × Locker.Event} (hl : w.lockers[i]? = some l) (hx : x ∈ l.agenda) :
    (x.1, .locker i x.2 0) ∈ w.agenda := by
  refine List.mem_append_right _ (List.mem_flatMap.2 ⟨(l, i), ?_, ?_⟩)
  · rwa [List.mk_mem_zipIdx_iff_getElem?]
  · exact List.mem_map_of_mem (f := fun x : Instant × Locker.Event => (x.1, Act.locker i x.2 0)) hx

/-- **Time does not pass beyond the next tick** of a locker. -/
theorem le_roundUp_of_inStep {til : Instant} {t : Ticker} (hp : inStep grain w til = true)
    (hl : w.lockers[i]? = some l) (ht : l.ticker = some t) (hs : t.stage = .resting)
    (hnow : w.now ≤ roundUp grain t.due) : til ≤ roundUp grain t.due := by
  have hx : (t.due, .tick) ∈ l.agenda := by
    refine List.mem_append_right _ ?_
    simp [Locker.tickerAgenda, ht, hs]
  obtain ⟨next, hnext, hle⟩ := exists_next? (mem_agenda hl hx) grain
  simp only [inStep, hnext, Option.all_some, decide_eq_true_eq] at hp
  rw [Nat.max_eq_right hnow] at hle
  exact Nat.le_trans hp hle

end LeaseLock.World
