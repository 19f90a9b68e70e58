import LeaseLock.Talk

/-!
# Results of talks

What a talk comes to, whatever it is answered (`Talk.Ends`). The rules follow the constructors of a
talk: a bound talk ends as its parts do (`Ends.bind`), and debts change nothing (`Ends.owing`). Main
result: `Ends.run`, by which a talk held with any server ends so.

**Every question** (`Talk.Heeds`). What a talk asks, and what it comes to with each single answer.

**Rules** (`Talk.Keeps`). What a talk asks, owes, tells and comes to, given all that was asked and
answered before. Some rules only look at each question by itself (`Talk.Says`). A talk without debts
and notices is plain (`Talk.Plain`).
-/

namespace LeaseLock.Talk

variable {S Q A α β : Type} {P : α → Prop}

/-- Whatever it is answered, the talk comes to no result without `P`. -/
def Ends (P : α → Prop) : Talk Q A α → Prop
  | done a => P a
  | ask _ _ next => ∀ a, (next a).Ends P
  | tell _ next => next.Ends P

theorem Ends.bind {P' : β → Prop} {t : Talk Q A α} {f : α → Talk Q A β} (h : t.Ends P)
    (hf : ∀ a, P a → (f a).Ends P') : (t.bind f).Ends P' := by
  induction t with
  | done a => exact hf a h
  | ask q owed next ih => exact fun a => ih a (h a)
  | tell q next ih => exact ih h

theorem Ends.owing {t : Talk Q A α} (h : t.Ends P) (debts : List Q) : (t.owing debts).Ends P := by
  induction t with
  | done a => exact h
  | ask q owed next ih => exact fun a => ih a (h a)
  | tell q next ih => exact ih h

theorem Ends.mono {P' : α → Prop} {t : Talk Q A α} (h : t.Ends P) (hP : ∀ a, P a → P' a) :
    t.Ends P' := by
  induction t with
  | done a => exact hP a h
  | ask q owed next ih => exact fun a => ih a (h a)
  | tell q next ih => exact ih h

theorem ends_question (q : Q) : (question q : Talk Q A A).Ends fun _ => True := fun _ => trivial

theorem ends_true (t : Talk Q A α) : t.Ends fun _ => True := by
  induction t with
  | done a => trivial
  | ask q owed next ih => exact fun a => ih a
  | tell q next ih => exact ih

/-- **With any server, a talk ends as it must.** -/
theorem Ends.run [Server S Q A] {t : Talk Q A α} (h : t.Ends P) {s s' : S} {a : α}
    (hr : t.run s = (s', .ok a)) : P a := by
  induction t generalizing s with
  | done b =>
    cases hr
    exact h
  | ask q owed next ih =>
    unfold Talk.run at hr
    split at hr
    next b _ => exact ih b (h b) hr
    · cases hr
  | tell q next ih => exact ih h hr

/-! ## Every question -/

/-- What the talk has come to, if it is over. -/
def result? : Talk Q A α → Option α
  | done a => some a
  | ask .. | tell .. => none

theorem result?_bind_done (t : Talk Q A α) (f : α → β) :
    (t.bind fun a => done (f a)).result? = t.result?.map f := by
  cases t <;> rfl

/-- Each question, the answer to it and what the talk comes to with that answer are as `R` says; and
nothing is told or owed. -/
def Heeds (R : Q → A → Option α → Prop) : Talk Q A α → Prop
  | done _ => True
  | ask q owed next => owed = [] ∧ ∀ a, R q a (next a).result? ∧ (next a).Heeds R
  | tell _ _ => False

theorem Heeds.map {R : Q → A → Option α → Prop} {R' : Q → A → Option β → Prop} {t : Talk Q A α}
    {f : α → β} (h : t.Heeds R) (hf : ∀ q a r, R q a r → R' q a (r.map f)) :
    (t.bind fun a => done (f a)).Heeds R' := by
  induction t with
  | done a => trivial
  | ask q owed next ih =>
    refine ⟨h.1, fun a => ?_⟩
    refine ⟨?_, ih a (h.2 a).2⟩
    rw [result?_bind_done]
    exact hf q a _ (h.2 a).1
  | tell q next => exact h.elim

/-! ## Rules -/

/-- Whatever it is answered, the talk asks, owes and tells as `may` has it, and comes to its result
as `ends` says, both given what was asked and answered before, the latest first. -/
def Keeps (may : List (Q × A) → Q → Prop) (ends : List (Q × A) → α → Prop) :
    List (Q × A) → Talk Q A α → Prop
  | past, done a => ends past a
  | past, ask q owed next =>
    may past q ∧ (∀ d ∈ owed, may past d) ∧ ∀ a, (next a).Keeps may ends ((q, a) :: past)
  | past, tell q next => may past q ∧ next.Keeps may ends past

variable {may : List (Q × A) → Q → Prop} {ends : List (Q × A) → α → Prop} {past : List (Q × A)}

theorem Keeps.bind {ends' : List (Q × A) → β → Prop} {t : Talk Q A α} {f : α → Talk Q A β}
    (h : t.Keeps may ends past) (hf : ∀ past a, ends past a → (f a).Keeps may ends' past) :
    (t.bind f).Keeps may ends' past := by
  induction t generalizing past with
  | done a => exact hf past a h
  | ask q owed next ih => exact ⟨h.1, h.2.1, fun a => ih a (h.2.2 a)⟩
  | tell q next ih => exact ⟨h.1, ih h.2⟩

theorem Keeps.discard {P : List (Q × A) → Prop} {t : Talk Q A α}
    (h : t.Keeps may (fun past _ => P past) past) :
    (Functor.discard t).Keeps may (fun past _ => P past) past := h.bind fun _ _ h => h

/-- Debts have to be as the rule says at every point of the talk. -/
theorem Keeps.owing {t : Talk Q A α} {debts : List Q} (h : t.Keeps may ends past)
    (hd : ∀ newer, ∀ d ∈ debts, may (newer ++ past) d) :
    (t.owing debts).Keeps may ends past := by
  induction t generalizing past with
  | done a => exact h
  | ask q owed next ih =>
    refine ⟨h.1, fun d hm => ?_, fun a => ih a (h.2.2 a) fun newer d hm => ?_⟩
    · rcases List.mem_append.1 hm with hm | hm
      · exact h.2.1 d hm
      · exact hd [] d hm
    · simpa using hd (newer ++ [(q, a)]) d hm
  | tell q next ih => exact ⟨h.1, ih h.2 hd⟩

/-- Whatever it is answered, the talk asks, owes and tells only what `P` accepts. -/
def Says (P : Q → Prop) (t : Talk Q A α) : Prop :=
  ∀ past, t.Keeps (fun _ q => P q) (fun _ _ => True) past

namespace Says

variable {P : Q → Prop} {t : Talk Q A α}

theorem done (a : α) : (done a : Talk Q A α).Says P := fun _ => trivial

theorem question {q : Q} (h : P q) : (question q : Talk Q A A).Says P :=
  fun _ => ⟨h, List.forall_mem_nil _, fun _ => trivial⟩

theorem bind {f : α → Talk Q A β} (h : t.Says P) (hf : ∀ a, (f a).Says P) : (t.bind f).Says P :=
  fun past => (h past).bind fun past a _ => hf a past

theorem reading {q : Q} (h : P q) (f : A → α) :
    ((Talk.question q).bind fun a => .done (f a)).Says P :=
  (question h).bind fun a => done (f a)

theorem discard (h : t.Says P) : (Functor.discard t).Says P := h.bind fun _ => done ()

theorem owing {debts : List Q} (h : t.Says P) (hd : ∀ d ∈ debts, P d) : (t.owing debts).Says P :=
  fun past => (h past).owing fun _ => hd

end Says

/-- The talk owes nothing and tells nothing. -/
def Plain : Talk Q A α → Prop
  | done _ => True
  | ask _ owed next => owed = [] ∧ ∀ a, (next a).Plain
  | tell _ _ => False

theorem Plain.bind {t : Talk Q A α} {f : α → Talk Q A β} (h : t.Plain) (hf : ∀ a, (f a).Plain) :
    (t.bind f).Plain := by
  induction t with
  | done a => exact hf a
  | ask q owed next ih => exact ⟨h.1, fun a => ih a (h.2 a)⟩
  | tell q next => exact h.elim

end LeaseLock.Talk
