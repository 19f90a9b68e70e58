import LeaseLock.Proofs.Locker.Waiting
import LeaseLock.World

/-!
# Runs of a world

**Chronicles** (`Chronicle`). The histories of all lockers. `World.chronicle` adds what an act
brings: the step that it makes a locker take, and the answer that comes back on the spot, if one
does.

**Runs** (`Run`). A world that started with a service and no lockers, and has gone through any
acts but calls past the guards of lockers (`Act.isHonest`); the service may be changed from
outside between them.

**Deeds** (`Deed`). What one act does: it makes a locker, moves one (`Move`), lets an answer land,
or lets time pass. Main results: `deed_of_step`, and `Run.told`, by which every locker of a
world has come out of its history.
-/

namespace LeaseLock.World

open Locker (Event Effect History Returns latest)

variable {σ : Type} {w w' : World σ} {now : Instant} {s s' : σ} {i j : Nat} {l l' : Locker}
  {e : Event} {fx : List Effect} {p : Party} {op : Op} {a : Answer} {draw : Nat} {act : Act}
  {reports : List Report}

/-! ## Chronicles -/

/-- The histories of the lockers, by number. -/
abbrev Chronicle := Nat → History

def Chronicle.add (c : Chronicle) (i : Nat) (news : History) : Chronicle := fun j =>
  if j = i then news ++ c j else c j

theorem Chronicle.add_self (c : Chronicle) (i : Nat) (news : History) :
    c.add i news i = news ++ c i := if_pos rfl

theorem Chronicle.add_of_ne (c : Chronicle) (news : History) (h : j ≠ i) : c.add i news j = c j :=
  if_neg h

theorem Chronicle.add_nil (c : Chronicle) (i : Nat) : c.add i [] = c := by
  funext j
  unfold Chronicle.add
  split <;> rfl

/-- The entry of an answer, if the locker hears it. -/
def heard (now : Instant) (l : Locker) (p : Party) (a : Answer) (draw : Nat) : History :=
  match l.answer now p a draw with
  | some (_, fx) => [⟨now, .answer p a draw, fx⟩]
  | none => []

theorem heard_of_answer {l' : Locker} (h : l.answer now p a draw = some (l', fx)) :
    heard now l p a draw = [⟨now, .answer p a draw, fx⟩] := by
  unfold heard
  rw [h]

theorem heard_of_not_answer (h : l.answer now p a draw = none) : heard now l p a draw = [] := by
  unfold heard
  rw [h]

/-- What comes of an answer that reaches a locker. -/
theorem deliver_cases (w : World σ) (i : Nat) (p : Party) (a : Answer) (draw : Nat) :
    (∃ l l' fx, w.lockers[i]? = some l ∧ l.answer w.now p a draw = some (l', fx) ∧
        (w.deliver i p a draw).1 = w.setLocker i l') ∨
      (w.lockers[i]?.bind fun l => l.answer w.now p a draw) = none ∧
        (w.deliver i p a draw).1 = w := by
  unfold World.deliver
  split
  next l' fx h =>
    obtain ⟨l, hl, ha⟩ := Option.bind_eq_some_iff.1 h
    exact .inl ⟨l, l', fx, hl, ha, rfl⟩
  next h => exact .inr ⟨h, rfl⟩

theorem flights_deliver (w : World σ) (i : Nat) (p : Party) (a : Answer) (draw : Nat) :
    (w.deliver i p a draw).1.flights = w.flights := by
  rcases deliver_cases w i p a draw with ⟨l, l', fx, -, -, h⟩ | ⟨-, h⟩ <;> rw [h]
  rfl

/-- Every locker has come out of its history, and a locker that was not made has none. -/
structure Told (w : World σ) (c : Chronicle) : Prop where
  run : ∀ {i l}, w.lockers[i]? = some l → Locker.Run l (c i) ∧ latest (c i) ≤ w.now
  blank : ∀ {i}, w.lockers[i]? = none → c i = []

theorem Told.add {c : Chronicle} {news : History} (ht : Told w c) (hi : i < w.lockers.length)
    (hrun : Locker.Run l' (news ++ c i) ∧ latest (news ++ c i) ≤ w.now) (hn : w'.now = w.now)
    (hls : w'.lockers = w.lockers.set i l') : Told w' (c.add i news) where
  run {j l} hl := by
    rw [hls, List.getElem?_set] at hl
    rw [hn]
    split at hl
    next hij =>
      subst hij
      cases hl
      rwa [Chronicle.add_self]
    next hij =>
      rw [Chronicle.add_of_ne c news (Ne.symm hij)]
      exact ht.run hl
  blank {j} hl := by
    have hij : j ≠ i := by
      rintro rfl
      simp [hls, hi] at hl
    rw [Chronicle.add_of_ne c news hij]
    refine ht.blank ?_
    rwa [hls, List.getElem?_set_ne (Ne.symm hij)] at hl

/-- The act calls nothing past a guard, and leaves the answers to the service. -/
def Act.isHonest : Act → Bool
  | .direct .. | .recall _ | .locker _ (.answer ..) _ => false
  | _ => true

variable [Service σ]

/-- The entry of the answer that comes on the spot when a call goes out. -/
def echo (w : World σ) (i : Nat) (own : Options) (l : Locker) (draw : Nat) : List Effect → History
  | [.start p op] => match Service.begin w.service ⟨i, .party p, own⟩ own op w.now with
    | (_, .answered a) => heard w.now l p a draw
    | _ => []
  | _ => []

/-- The histories after an act. -/
def chronicle (w : World σ) (c : Chronicle) : Act → Chronicle
  | .locker i e draw => match w.lockers[i]? with
    | some l => match l.step w.now e with
      | some (l', fx) => c.add i (w.echo i l.options l' draw fx ++ [⟨w.now, e, fx⟩])
      | none => c
    | none => c
  | .land k draw => match w.flights[k]? with
    | some ⟨⟨i, .party p, _⟩, _, some (_, a)⟩ => match w.lockers[i]? with
      | some l => c.add i (heard w.now l p a draw)
      | none => c
    | _ => c
  | _ => c

/-- The world has come about from a service of the given kind, and so have the histories. -/
inductive Run (initial : σ → Prop) (outside : σ → σ → Prop) : World σ → Chronicle → Prop
  | start {s : σ} : initial s → Run initial outside { service := s } fun _ => []
  | act {w w' : World σ} {c : Chronicle} {act : Act} {reports : List Report} :
      Run initial outside w c → act.isHonest = true → w.step act = some (w', reports) →
      Run initial outside w' (w.chronicle c act)
  | meddle {w : World σ} {c : Chronicle} {s : σ} :
      Run initial outside w c → outside w.service s →
      Run initial outside { w with service := s } c

variable {initial : σ → Prop} {outside : σ → σ → Prop} {c c' : Chronicle}

/-- What becomes of a world and its histories by the acts given, the first one first. -/
def replay : World σ × Chronicle → List Act → Option (World σ × Chronicle)
  | r, [] => some r
  | (w, c), act :: acts =>
    if act.isHonest then
      match w.step act with
      | some (w', _) => replay (w', w.chronicle c act) acts
      | none => none
    else none

theorem Run.replay {r : World σ × Chronicle} (run : Run initial outside w c) (acts : List Act)
    (hr : World.replay (w, c) acts = some r) : Run initial outside r.1 r.2 := by
  induction acts generalizing w c with
  | nil =>
    cases hr
    exact run
  | cons act acts ih =>
    unfold World.replay at hr
    split at hr
    next ha =>
      split at hr
      next w' rs hs => exact ih (run.act ha hs) hr
      · cases hr
    · cases hr

/-! ## Effects -/

theorem performAll_of_returns (w : World σ) (own : Options) (h : Returns fx) :
    (w.performAll i own draw fx).1 = w := by
  induction fx with
  | nil => rfl
  | cons x fx ih =>
    obtain ⟨n, r, rfl⟩ := h x List.mem_cons_self
    exact ih fun y hy => h y (List.mem_cons_of_mem _ hy)

theorem performAll_start (w : World σ) (own : Options) :
    (w.performAll i own draw [.start p op]).1 = (w.place ⟨i, .party p, own⟩ own op draw).1 := rfl

theorem performAll_cut (w : World σ) (own : Options) (h : Returns fx) :
    (w.performAll i own draw (.cut p :: fx)).1 = w.drop i (.party p) :=
  performAll_of_returns _ own h

theorem drop_eq (w : World σ) (i : Nat) (seat : Seat) :
    (w.drop i seat).now = w.now ∧ (w.drop i seat).lockers = w.lockers ∧
      (∀ f ∈ (w.drop i seat).flights, f ∈ w.flights) ∧
      ((w.drop i seat).service = w.service ∨ ∃ site op, site.home = i ∧
        (w.drop i seat).service = Service.cut w.service site op w.now) := by
  unfold World.drop
  split
  next f hf =>
    have hh := List.find?_some hf
    simp only [decide_eq_true_eq] at hh
    exact ⟨rfl, rfl, fun g hg => (List.mem_filter.1 hg).1, .inr ⟨f.site, f.op, hh.1, rfl⟩⟩
  · exact ⟨rfl, rfl, fun g hg => hg, .inl rfl⟩

/-! ## Deeds -/

/-- What an act at a locker makes of the service and of the locker, and what it adds to the
history. -/
inductive Move (i : Nat) (now : Instant) (s : σ) (l : Locker) : σ → Locker → History → Prop
  | moved {e : Event} {l' : Locker} {fx : List Effect} : e.isAnswer = false →
      l.step now e = some (l', fx) → Returns fx → Move i now s l s l' [⟨now, e, fx⟩]
  | cut {e : Event} {l' : Locker} {fx : List Effect} {p : Party} {s' : σ} : e.isAnswer = false →
      l.step now e = some (l', .cut p :: fx) → Returns fx →
      (s' = s ∨ ∃ site op, site.home = i ∧ s' = Service.cut s site op now) →
      Move i now s l s' l' [⟨now, e, .cut p :: fx⟩]
  /-- A call goes out, and no answer is heard on the spot. -/
  | asked {e : Event} {l' : Locker} {p : Party} {op : Op} {s' : σ} {r : Reception} :
      e.isAnswer = false → l.step now e = some (l', [.start p op]) →
      Service.begin s ⟨i, .party p, l.options⟩ l.options op now = (s', r) →
      (∀ a, r = .answered a → ∃ draw, l'.answer now p a draw = none) →
      Move i now s l s' l' [⟨now, e, [.start p op]⟩]
  /-- A call goes out, and is answered on the spot. -/
  | answered {e : Event} {l₁ l' : Locker} {p : Party} {op : Op} {s' : σ} {a : Answer} {draw : Nat}
      {fx : List Effect} : e.isAnswer = false → l.step now e = some (l₁, [.start p op]) →
      Service.begin s ⟨i, .party p, l.options⟩ l.options op now = (s', .answered a) →
      l₁.answer now p a draw = some (l', fx) →
      Move i now s l s' l' [⟨now, .answer p a draw, fx⟩, ⟨now, e, [.start p op]⟩]

/-- What one act does to a world and its histories. -/
inductive Deed (w : World σ) (c : Chronicle) : World σ → Chronicle → Prop
  | made {o : Options} {l : Locker} {w' : World σ} : Locker.make o = .ok l → w'.now = w.now →
      w'.service = w.service → w'.lockers = w.lockers ++ [l] → Deed w c w' c
  | moved {i : Nat} {l l' : Locker} {news : History} {w' : World σ} : w.lockers[i]? = some l →
      Move i w.now w.service l w'.service l' news → w'.now = w.now →
      w'.lockers = w.lockers.set i l' → Deed w c w' (c.add i news)
  | landed {f : Flight} {i : Nat} {l l' : Locker} {p : Party} {a : Answer} {draw : Nat}
      {fx : List Effect} {w' : World σ} : f ∈ w.flights → f.arrival ≠ none →
      w.lockers[i]? = some l → l.answer w.now p a draw = some (l', fx) → w'.now = w.now →
      w'.lockers = w.lockers.set i l' → Deed w c w' (c.add i [⟨w.now, .answer p a draw, fx⟩])
  | missed {f : Flight} {w' : World σ} : f ∈ w.flights → f.arrival ≠ none → w'.now = w.now →
      w'.lockers = w.lockers → Deed w c w' c
  | elapsed {w' : World σ} : w.now ≤ w'.now → w'.service = w.service → w'.lockers = w.lockers →
      Deed w c w' c

theorem deed_of_event (he : e.isAnswer = false) (hl : w.lockers[i]? = some l)
    (hs : l.step w.now e = some (l', fx)) :
    Deed w c ((w.setLocker i l').performAll i l.options draw fx).1
      (c.add i (w.echo i l.options l' draw fx ++ [⟨w.now, e, fx⟩])) := by
  have hi : i < w.lockers.length := (List.getElem?_eq_some_iff.1 hl).1
  rcases (Locker.stepped_of_step hs).effects with hr | ⟨p, op, rfl⟩ | ⟨p, fx, rfl, hr⟩
  · have hecho : w.echo i l.options l' draw fx = [] := by
      unfold echo
      split
      · obtain ⟨n, r, hx⟩ := hr _ List.mem_cons_self
        cases hx
      · rfl
    rw [performAll_of_returns _ _ hr, hecho]
    exact .moved hl (.moved he hs hr) rfl rfl
  · rw [performAll_start]
    cases hb : Service.begin w.service ⟨i, .party p, l.options⟩ l.options op w.now with
    | mk s' r =>
      cases r with
      | answered a =>
        have hplace : ((w.setLocker i l').place ⟨i, .party p, l.options⟩ l.options op draw).1 =
            (World.deliver ⟨w.now, s', w.lockers.set i l', w.flights⟩ i p a draw).1 := by
          simp only [place, setLocker, hb]
        have hecho : w.echo i l.options l' draw [.start p op] = heard w.now l' p a draw := by
          simp only [echo, hb]
        have hl' : (w.lockers.set i l')[i]? = some l' := by simp [hi]
        rw [hplace, hecho]
        rcases deliver_cases ⟨w.now, s', w.lockers.set i l', w.flights⟩ i p a draw with
          ⟨l₁, l₂, fx, hl₁, ha, hd⟩ | ⟨hn, hd⟩
        · obtain rfl := Option.some.inj (hl'.symm.trans hl₁)
          have ha : l'.answer w.now p a draw = some (l₂, fx) := ha
          rw [hd, heard_of_answer ha]
          exact .moved hl (.answered he hs hb ha) rfl (List.set_set ..)
        · have hn : l'.answer w.now p a draw = none := by simpa [hi] using hn
          rw [hd, heard_of_not_answer hn]
          refine .moved hl (.asked he hs hb fun a' h => ?_) rfl rfl
          cases h
          exact ⟨draw, hn⟩
      | due landing a =>
        have hecho : w.echo i l.options l' draw [.start p op] = [] := by simp only [echo, hb]
        rw [hecho]
        simp only [place, setLocker, hb]
        exact .moved hl (.asked he hs hb fun a h => by cases h) rfl rfl
      | silent =>
        have hecho : w.echo i l.options l' draw [.start p op] = [] := by simp only [echo, hb]
        rw [hecho]
        simp only [place, setLocker, hb]
        exact .moved hl (.asked he hs hb fun a h => by cases h) rfl rfl
  · rw [performAll_cut _ _ hr]
    obtain ⟨hn, hls, -, hsv⟩ := drop_eq (w.setLocker i l') i (.party p)
    exact .moved hl (.cut he hs hr hsv) hn hls

/-! ## Flights -/

/-- A party of a locker made the call, and the service promised the arrival, if there is one. -/
def Launched (σ : Type) [Service σ] (f : Flight) : Prop :=
  (∃ p, f.site.seat = .party p) ∧ ∀ landing a, f.arrival = some (landing, a) →
    ∃ (s : σ) (o : Options) (op : Op) (now : Instant),
      (Service.begin s f.site o op now).2 = .due landing a

theorem launched_of_place (w : World σ) (own : Options) {f : Flight}
    (hf : f ∈ (w.place ⟨i, .party p, own⟩ own op draw).1.flights) :
    f ∈ w.flights ∨ Launched σ f := by
  cases hb : Service.begin w.service ⟨i, .party p, own⟩ own op w.now with
  | mk s' r =>
    cases r with
    | answered a =>
      simp only [place, hb, flights_deliver] at hf
      exact .inl hf
    | due landing a =>
      simp only [place, hb, List.mem_append, List.mem_singleton] at hf
      refine hf.imp_right ?_
      rintro rfl
      refine ⟨⟨p, rfl⟩, fun landing' a' h => ⟨w.service, own, op, w.now, ?_⟩⟩
      cases h
      rw [hb]
    | silent =>
      simp only [place, hb, List.mem_append, List.mem_singleton] at hf
      refine hf.imp_right ?_
      rintro rfl
      exact ⟨⟨p, rfl⟩, fun landing' a' h => by cases h⟩

theorem launched_of_performAll (own : Options) {f : Flight}
    (hf : f ∈ (w.performAll i own draw fx).1.flights) : f ∈ w.flights ∨ Launched σ f := by
  induction fx generalizing w with
  | nil => exact .inl hf
  | cons x fx ih =>
    rcases ih hf with h | h
    · cases x with
      | start p op => exact launched_of_place w own h
      | cut p => exact .inl ((drop_eq w i (.party p)).2.2.1 f h)
      | returned n r => exact .inl h
    · exact .inr h

theorem launched_of_step (ha : act.isHonest = true) (hs : w.step act = some (w', reports))
    {f : Flight} (hf : f ∈ w'.flights) : f ∈ w.flights ∨ Launched σ f := by
  cases act with
  | create o =>
    simp only [step] at hs
    split at hs <;> cases hs
    exact .inl hf
  | locker i e draw =>
    simp only [step, Option.bind_eq_bind, Option.bind_eq_some_iff] at hs
    obtain ⟨l, hl, ⟨l', fx⟩, hst, hs⟩ := hs
    have hw : ((w.setLocker i l').performAll i l.options draw fx).1 = w' :=
      congrArg Prod.fst (Option.some.inj hs)
    rw [← hw] at hf
    exact launched_of_performAll (w := w.setLocker i l') _ hf
  | land k draw =>
    simp only [step, Option.bind_eq_bind, Option.bind_eq_some_iff] at hs
    obtain ⟨g, hg, ⟨landing, a⟩, harr, hs⟩ := hs
    split at hs
    · cases hs
    · have hw : w'.flights = w.flights.eraseIdx k := by
        split at hs
        · exact (congrArg (·.1.flights) (Option.some.inj hs)).symm.trans (flights_deliver ..)
        · exact (congrArg (·.1.flights) (Option.some.inj hs)).symm
      rw [hw] at hf
      exact .inl (List.mem_of_mem_eraseIdx hf)
  | direct | «recall» => cases ha
  | elapse til =>
    simp only [step] at hs
    split at hs <;> cases hs
    exact .inl hf

/-- Only calls of parties are under way. -/
theorem Run.launched (run : Run initial outside w c) {f : Flight} (hf : f ∈ w.flights) :
    Launched σ f := by
  induction run with
  | start => cases hf
  | act _ ha hs ih => exact (launched_of_step ha hs hf).elim ih id
  | meddle _ _ ih => exact ih hf

/-! ## Steps -/

/-- **An honest act is one of the deeds.** -/
theorem deed_of_step (hf : ∀ f ∈ w.flights, Launched σ f) (ha : act.isHonest = true)
    (hs : w.step act = some (w', reports)) : Deed w c w' (w.chronicle c act) := by
  cases act with
  | create o =>
    simp only [step] at hs
    split at hs
    next l hl =>
      cases hs
      exact .made hl rfl rfl rfl
    · cases hs
  | locker i e draw =>
    simp only [step, Option.bind_eq_bind, Option.bind_eq_some_iff] at hs
    obtain ⟨l, hl, ⟨l', fx⟩, hst, hs⟩ := hs
    have he : e.isAnswer = false := by
      cases e <;> first | rfl | cases ha
    have hw : ((w.setLocker i l').performAll i l.options draw fx).1 = w' :=
      congrArg Prod.fst (Option.some.inj hs)
    rw [← hw]
    simp only [chronicle, hl, hst]
    exact deed_of_event he hl hst
  | land k draw =>
    simp only [step, Option.bind_eq_bind, Option.bind_eq_some_iff] at hs
    obtain ⟨⟨⟨i, seat, own⟩, op, arrival⟩, hk, ⟨landing, a⟩, rfl, hs⟩ := hs
    have hmem := List.mem_of_getElem? hk
    obtain ⟨⟨p, rfl⟩, -⟩ := hf _ hmem
    split at hs
    · cases hs
    · have hw : w' = (World.deliver ⟨w.now, Service.landed w.service ⟨i, .party p, own⟩ op w.now,
          w.lockers, w.flights.eraseIdx k⟩ i p a draw).1 :=
        (congrArg Prod.fst (Option.some.inj hs)).symm
      simp only [chronicle, hk]
      rcases deliver_cases ⟨w.now, Service.landed w.service ⟨i, .party p, own⟩ op w.now, w.lockers,
        w.flights.eraseIdx k⟩ i p a draw with ⟨l, l', fx, hl, hans, hd⟩ | ⟨hn, hd⟩
      · have hl : w.lockers[i]? = some l := hl
        have hans : l.answer w.now p a draw = some (l', fx) := hans
        rw [hw.trans hd]
        simp only [hl, heard_of_answer hans]
        exact .landed hmem (by simp) hl hans rfl rfl
      · have hc : (match w.lockers[i]? with
            | some l => c.add i (heard w.now l p a draw)
            | none => c) = c := by
          cases hl : w.lockers[i]? with
          | none => rfl
          | some l =>
            have hans : l.answer w.now p a draw = none := by simpa [hl] using hn
            simp only [heard_of_not_answer hans, Chronicle.add_nil]
        rw [hw.trans hd, hc]
        exact .missed hmem (by simp) rfl rfl
  | direct | «recall» => cases ha
  | elapse til =>
    simp only [step] at hs
    split at hs <;> cases hs
    next ht => exact .elapsed ht rfl rfl

theorem Move.run {news h : History} (m : Move i now s l s' l' news) (run : Locker.Run l h)
    (hle : latest h ≤ now) : Locker.Run l' (news ++ h) ∧ latest (news ++ h) ≤ now := by
  cases m with
  | moved _ hs | cut _ hs | asked _ hs => exact ⟨run.step hle hs, Nat.le_refl now⟩
  | answered _ hs _ ha => exact ⟨(run.step hle hs).step (Nat.le_refl now) ha, Nat.le_refl now⟩

theorem Move.options {news : History} (m : Move i now s l s' l' news) : l'.options = l.options := by
  cases m with
  | moved _ hs | cut _ hs | asked _ hs => exact (Locker.stepped_of_step hs).options
  | answered _ hs _ ha =>
    exact (Locker.heard_of_answer ha).2.options.trans (Locker.stepped_of_step hs).options

theorem Deed.told (ht : Told w c) (d : Deed w c w' c') : Told w' c' := by
  cases d with
  | @made o l _ hm hn _ hls =>
    refine ⟨fun {i l'} hl => ?_, fun {i} hl => ht.blank ?_⟩
    · rw [hls, List.getElem?_append] at hl
      rw [hn]
      split at hl
      · exact ht.run hl
      next hi =>
        obtain ⟨_, rfl⟩ : i = w.lockers.length ∧ l = l' := by
          rw [List.getElem?_singleton] at hl
          split at hl
          · cases hl
            exact ⟨by omega, rfl⟩
          · cases hl
        rw [ht.blank (List.getElem?_eq_none (by omega))]
        exact ⟨.made hm, Nat.zero_le _⟩
    · rw [hls] at hl
      simp only [List.getElem?_eq_none_iff, List.length_append] at hl ⊢
      omega
  | moved hl m hn hls =>
    have hrun := ht.run hl
    exact ht.add (List.getElem?_eq_some_iff.1 hl).1 (m.run hrun.1 hrun.2) hn hls
  | landed _ _ hl ha hn hls =>
    have hrun := ht.run hl
    exact ht.add (List.getElem?_eq_some_iff.1 hl).1
      ⟨hrun.1.step hrun.2 ha, Nat.le_refl _⟩ hn hls
  | missed _ _ hn hls =>
    refine ⟨fun hl => ?_, fun hl => ht.blank (by rwa [hls] at hl)⟩
    rw [hls] at hl
    rw [hn]
    exact ht.run hl
  | elapsed hn _ hls =>
    refine ⟨fun hl => ?_, fun hl => ht.blank (by rwa [hls] at hl)⟩
    rw [hls] at hl
    exact ⟨(ht.run hl).1, Nat.le_trans (ht.run hl).2 hn⟩

/-- **Every locker of a world has come out of its history.** -/
theorem Run.told (run : Run initial outside w c) : Told w c := by
  induction run with
  | start => exact ⟨fun hl => by simp at hl, fun _ => rfl⟩
  | act run ha hs ih => exact (deed_of_step (fun _ => run.launched) ha hs).told ih
  | meddle _ _ ih => exact ⟨ih.run, ih.blank⟩

end LeaseLock.World
