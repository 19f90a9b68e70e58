import LeaseLock.Proofs.Locker.Moves

/-!
# Histories of lockers

**Entries** (`Entry`). One step of a locker: when it was taken, what happened, and what the locker
did to the outside. A history holds the entries, the latest first.

**Runs** (`Run`). A locker that was made with usable options and has taken the steps of its
history, in the course of time. Nothing is assumed of the service: the answers that a run holds
may be any answers, at any instants.

**What a history tells.** What a call was made for (`asked?`), and when the record was last
renewed (`renewed?`): by the grant of the lock, by a caller's refresh or by a tick.
-/

namespace LeaseLock

/-- The answer grants the lock, or tells that a refresh has succeeded. -/
def Answer.renews : Answer → Bool
  | .acquire (.ok .granted) | .refresh (.ok ()) => true
  | _ => false

namespace Locker

/-- One step of a locker. -/
structure Entry where
  time : Instant
  event : Event
  /-- What the locker did to the outside. -/
  effects : List Effect

/-- What has happened to a locker, the latest first. -/
abbrev History := List Entry

variable {l l' : Locker} {h : History} {now : Instant} {e : Event} {fx : List Effect}

/-! ## Reading a history -/

def latest : History → Instant
  | [] => 0
  | x :: _ => x.time

/-- What a call was made for, by the latest call of that number. -/
def asked? (h : History) (n : Nat) : Option Verb :=
  h.findSome? fun x => match x.event with
    | .call m verb => if m = n then some verb else none
    | _ => none

def Event.isAnswer : Event → Bool
  | .answer .. => true
  | _ => false

/-- The lock is granted, or a refresh has succeeded. -/
def Event.renews : Event → Bool
  | .answer _ a _ => a.renews
  | _ => false

/-- When the record was last renewed, or taken. -/
def renewed? (h : History) : Option Instant := (h.find? (·.event.renews)).map (·.time)

/-- The locker is held, and its lease, counted from the latest renewal, has not run out. -/
def Entitled (l : Locker) (h : History) (now : Instant) : Prop :=
  l.phase = .held ∧ ∃ t, renewed? h = some t ∧ now < l.options.lease.after t

theorem renewed?_cons (x : Entry) (h : History) :
    renewed? (x :: h) = if x.event.renews then some x.time else renewed? h := by
  unfold renewed?
  rw [List.find?_cons]
  cases x.event.renews <;> rfl

theorem renewed?_cons_answer (p : Party) (a : Answer) (draw : Nat) (h : History) :
    renewed? (⟨now, .answer p a draw, fx⟩ :: h) = if a.renews then some now else renewed? h :=
  renewed?_cons _ h

theorem renewed?_cons_of_not_isAnswer (he : e.isAnswer = false) (h : History) :
    renewed? (⟨now, e, fx⟩ :: h) = renewed? h := by
  rw [renewed?_cons, if_neg]
  cases e <;> first | exact Bool.false_ne_true | cases he

theorem asked?_cons_call (m : Nat) (verb : Verb) (h : History) (n : Nat) :
    asked? (⟨now, .call m verb, fx⟩ :: h) n = if m = n then some verb else asked? h n := by
  unfold asked?
  rw [List.findSome?_cons]
  by_cases hm : m = n <;> simp [hm]

theorem asked?_cons_of_ne (he : ∀ m verb, e ≠ .call m verb) (h : History) (n : Nat) :
    asked? (⟨now, e, fx⟩ :: h) n = asked? h n := by
  unfold asked?
  rw [List.findSome?_cons]
  cases e <;> first | rfl | exact absurd rfl (he _ _)

/-! ## Runs -/

/-- The locker has come out of a history. -/
inductive Run : Locker → History → Prop
  | made {o : Options} {l : Locker} : make o = .ok l → Run l []
  | step {l l' : Locker} {h : History} {now : Instant} {e : Event} {fx : List Effect} :
      Run l h → latest h ≤ now → l.step now e = some (l', fx) → Run l' (⟨now, e, fx⟩ :: h)

/-- What becomes of a locker and its history by the events given, the first one first. -/
def replay : Locker × History → List (Instant × Event) → Option (Locker × History)
  | r, [] => some r
  | (l, h), (now, e) :: es =>
    if latest h ≤ now then
      match l.step now e with
      | some (l', fx) => replay (l', ⟨now, e, fx⟩ :: h) es
      | none => none
    else none

/-- **Induction over what is replayed**: what holds at first, with nothing new, and is kept by a
step that adds its entry, holds in the end, with all that is new. -/
theorem replay_induction {P : Locker → History → Prop} {es : List (Instant × Event)}
    {r : Locker × History} (start : P l [])
    (step : ∀ {l₁ l₂ newer now e fx}, P l₁ newer → latest (newer ++ h) ≤ now →
      Locker.step now l₁ e = some (l₂, fx) → P l₂ (⟨now, e, fx⟩ :: newer))
    (hr : replay (l, h) es = some r) : ∃ newer, r.2 = newer ++ h ∧ P r.1 newer := by
  induction es generalizing l h P with
  | nil =>
    cases hr
    exact ⟨[], rfl, start⟩
  | cons x es ih =>
    obtain ⟨now, e⟩ := x
    unfold replay at hr
    split at hr
    next ht =>
      split at hr
      next l' fx hs =>
        -- from the next locker on, the entry of this step is the oldest new one
        obtain ⟨newer, heq, hp⟩ := ih (P := fun l newer => P l (newer ++ [⟨now, e, fx⟩]))
          (step start ht hs) (fun hp hle => step hp (by simpa using hle)) hr
        exact ⟨newer ++ [⟨now, e, fx⟩], by simp [heq], hp⟩
      · cases hr
    · cases hr

theorem Run.replay {es : List (Instant × Event)} {r : Locker × History} (run : Run l h)
    (hr : replay (l, h) es = some r) : Run r.1 r.2 := by
  obtain ⟨newer, heq, run'⟩ :=
    replay_induction (P := fun l' newer => Run l' (newer ++ h)) run Run.step hr
  exact heq ▸ run'

theorem Run.time_le_latest (run : Run l h) {x : Entry} (hx : x ∈ h) : x.time ≤ latest h := by
  induction run with
  | made => cases hx
  | step _ hle _ ih =>
    rcases List.mem_cons.1 hx with rfl | hx
    · exact Nat.le_refl _
    · exact Nat.le_trans (ih hx) hle

theorem Run.exists_renewed (run : Run l h) {x : Entry} (hx : x ∈ h)
    (hr : x.event.renews = true) : ∃ t, renewed? h = some t ∧ x.time ≤ t := by
  induction run with
  | made => cases hx
  | @step _ _ h now e fx run hle _ ih =>
    rw [renewed?_cons]
    by_cases he : e.renews = true
    · refine ⟨now, if_pos he, ?_⟩
      rcases List.mem_cons.1 hx with rfl | hx
      · exact Nat.le_refl _
      · exact Nat.le_trans (run.time_le_latest hx) hle
    · rcases List.mem_cons.1 hx with rfl | hx
      · exact absurd hr he
      · obtain ⟨t, ht, hxt⟩ := ih hx
        exact ⟨t, (if_neg he).trans ht, hxt⟩

theorem make_eq_ok_iff {o : Options} :
    make o = .ok l ↔ o.check = .ok () ∧ l = { options := o } := by
  unfold make
  cases h : o.check with
  | error e => simp [Except.map]
  | ok u => simp [Except.map, eq_comm]

/-! ## What never changes -/

theorem Turn.options {p : Party} (t : Turn l now p l' fx) : l'.options = l.options := by
  cases t <;> rfl

theorem Heard.options {p : Party} {a : Answer} (t : Heard l now p a l' fx) :
    l'.options = l.options := by
  cases t <;> rfl

theorem Arrival.options {p : Party} (t : Arrival l now e p l') : l'.options = l.options := by
  cases t <;> rfl

theorem options_drop (l : Locker) (errands : Bool) : (l.drop errands).options = l.options := by
  unfold drop
  split
  · cases l.phase <;> cases errands <;> rfl
  · cases errands <;> rfl

theorem Stepped.options (s : Stepped l now e l' fx) : l'.options = l.options := by
  cases s with
  | joined ha => exact ha.options
  | turned ha _ ht => exact ht.options.trans ha.options
  | resumed _ ht => exact ht.options
  | answered _ hh => exact hh.options
  | expired _ _ hh => exact hh.options
  | dropped => exact options_drop _ _
  | cut | cancelled | lapsed | sent => rfl

theorem Run.check (run : Run l h) : l.options.check = .ok () := by
  induction run with
  | made hm =>
    obtain ⟨ho, rfl⟩ := make_eq_ok_iff.1 hm
    exact ho
  | step _ _ hs ih => rw [(stepped_of_step hs).options, ih]

/-! ## What was asked -/

theorem exists_caller_of_removeCaller {n m : Nat} {c : Caller}
    (hc : (l.removeCaller n).caller? m = some c) :
    ∃ c', l.caller? m = some c' ∧ c'.verb = c.verb := by
  rw [caller?_removeCaller] at hc
  split at hc
  · cases hc
  · exact ⟨c, hc, rfl⟩

theorem exists_caller_of_moveCaller {n m : Nat} {stage : Caller.Stage} {c : Caller}
    (hc : (l.moveCaller n stage).caller? m = some c) :
    ∃ c', l.caller? m = some c' ∧ c'.verb = c.verb := by
  rw [caller?_moveCaller] at hc
  split at hc
  · obtain ⟨c', hc', rfl⟩ := Option.map_eq_some_iff.1 hc
    exact ⟨c', hc', rfl⟩
  · exact ⟨c, hc, rfl⟩

theorem Turn.exists_caller {p : Party} (t : Turn l now p l' fx) {m : Nat} {c : Caller}
    (hc : l'.caller? m = some c) : ∃ c', l.caller? m = some c' ∧ c'.verb = c.verb := by
  cases t with
  | served | surrendered => exact exists_caller_of_removeCaller (l := l) hc
  | attempted | refreshed | unlocked => exact exists_caller_of_moveCaller (l := l) hc
  | ticked | ended | returnedBack | closed => exact ⟨c, hc, rfl⟩

theorem Heard.exists_caller {p : Party} {a : Answer} (t : Heard l now p a l' fx) {m : Nat}
    {c : Caller} (hc : l'.caller? m = some c) : ∃ c', l.caller? m = some c' ∧ c'.verb = c.verb := by
  cases t with
  | granted | refused | refreshed | released => exact exists_caller_of_removeCaller (l := l) hc
  | napped => exact exists_caller_of_moveCaller (l := l) hc
  | ticked | closed => exact ⟨c, hc, rfl⟩

theorem caller?_drop (l : Locker) (errands : Bool) (m : Nat) :
    (l.drop errands).caller? m = l.caller? m := by
  unfold drop
  split
  · cases l.phase <;> cases errands <;> rfl
  · cases errands <;> rfl

/-- Somebody with this wish has just made the call of that number, or was under way with it
before. -/
def Wishes (l : Locker) (e : Event) (m : Nat) (verb : Verb) : Prop :=
  e = .call m verb ∨ (∃ c, l.caller? m = some c ∧ c.verb = verb) ∧ ∀ v, e ≠ .call m v

theorem wishes_of_caller {m : Nat} {c : Caller} (hc : l.caller? m = some c)
    (he : ∀ v, e ≠ .call m v) : Wishes l e m c.verb := .inr ⟨⟨c, hc, rfl⟩, he⟩

theorem Arrival.wishes {p : Party} (t : Arrival l now e p l') {m : Nat} {c : Caller}
    (hc : l'.caller? m = some c) : Wishes l e m c.verb := by
  cases t with
  | @call n verb hd hn =>
    rw [caller?_addCaller hn] at hc
    by_cases hm : m = n
    · subst hm
      rw [if_pos rfl] at hc
      cases hc
      exact .inl rfl
    · rw [if_neg hm] at hc
      refine wishes_of_caller hc ?_
      rintro v hv
      cases hv
      exact hm rfl
  | wake => exact .inr ⟨exists_caller_of_moveCaller hc, nofun⟩
  | tick | close => exact wishes_of_caller hc nofun

theorem Stepped.wishes (s : Stepped l now e l' fx) {m : Nat} {c : Caller}
    (hc : l'.caller? m = some c) : Wishes l e m c.verb := by
  cases s with
  | joined ha => exact ha.wishes hc
  | turned ha _ ht =>
    obtain ⟨c', hc', hv⟩ := ht.exists_caller hc
    rw [← hv]
    exact ha.wishes hc'
  | resumed _ ht => exact .inr ⟨ht.exists_caller hc, nofun⟩
  | answered _ hh | expired _ _ hh => exact .inr ⟨hh.exists_caller hc, nofun⟩
  | cut | cancelled => exact .inr ⟨exists_caller_of_removeCaller hc, nofun⟩
  | lapsed | sent => exact wishes_of_caller hc nofun
  | dropped =>
    rw [caller?_drop] at hc
    exact wishes_of_caller hc nofun

theorem asked?_cons_of_ne_call {m : Nat} (he : ∀ v, e ≠ .call m v) (h : History) :
    asked? (⟨now, e, fx⟩ :: h) m = asked? h m := by
  by_cases hc : ∃ n v, e = .call n v
  · obtain ⟨n, v, rfl⟩ := hc
    rw [asked?_cons_call, if_neg]
    rintro rfl
    exact he v rfl
  · exact asked?_cons_of_ne (fun n v hv => hc ⟨n, v, hv⟩) h m

theorem Wishes.asked? {m : Nat} {verb : Verb} (hw : Wishes l e m verb)
    (hold : ∀ c, l.caller? m = some c → Locker.asked? h m = some c.verb) :
    Locker.asked? (⟨now, e, fx⟩ :: h) m = some verb := by
  rcases hw with rfl | ⟨⟨c, hc, rfl⟩, he⟩
  · rw [asked?_cons_call, if_pos rfl]
  · rw [asked?_cons_of_ne_call he, hold c hc]

/-- **A caller wants what its call was made for.** -/
theorem Run.asked? (run : Run l h) {m : Nat} {c : Caller} (hc : l.caller? m = some c) :
    Locker.asked? h m = some c.verb := by
  induction run generalizing c with
  | made hm =>
    obtain ⟨-, rfl⟩ := make_eq_ok_iff.1 hm
    cases hc
  | step _ _ hs ih => exact ((stepped_of_step hs).wishes hc).asked? fun _ => ih

end Locker

end LeaseLock
