import LeaseLock.Proofs.Memory.Exclusion

/-!
# Leases of the store in memory

What an owner may rely on that has renewed a record, whatever else befalls the store.

**Histories** (`Trace`). A store has gone through calls of any owners with any options, one after
another in the course of time; in between, owners are cut off and come back.

**The lease.** Let the latest renewal of a name by its owner have begun a lease, and let no release
by that owner have succeeded since. While the lease lasts the record stands as it was written
(`Trace.record?_eq`), and every other owner is turned away. Once it has ended, and unless somebody
else has taken the name, anybody may take it, and the owner has lost it.

Main result: `lease_guarantee`.
-/

namespace LeaseLock.Memory

open Store

/-- What befell a store. -/
inductive Entry where
  /-- A call was made, and answered. -/
  | call (now : Instant) (o : Options) (op : Op) (answer : Answer)
  /-- An owner was cut off, or came back. -/
  | parted (now : Instant)

namespace Entry

def time : Entry → Instant
  | call now .. | parted now => now

/-- The owner has taken the name, or renewed its record. -/
def Renews (owner name : String) : Entry → Prop
  | call _ o _ a => o.owner = owner ∧ o.name = name ∧ a.renews = true
  | parted _ => False

/-- A release of the name by the owner has succeeded. -/
def Releases (owner name : String) : Entry → Prop
  | call _ o _ (.release (.ok ())) => o.owner = owner ∧ o.name = name
  | _ => False

end Entry

/-- The store has come out of a history, the latest entry first. -/
inductive Trace : Store → List Entry → Prop
  | start (s : Store) : Trace s []
  | call {s : Store} {h : List Entry} {now : Instant} (o : Options) (op : Op) : Trace s h →
      (∀ x ∈ h, x.time ≤ now) →
      Trace (s.answer now o op).1 (.call now o op (s.answer now o op).2 :: h)
  | parted {s s' : Store} {h : List Entry} {now : Instant} : Trace s h →
      (∀ x ∈ h, x.time ≤ now) → Parted s s' → Trace s' (.parted now :: h)

variable {s : Store} {r : Record} {now t : Instant} {o a : Options} {op : Op} {answer : Answer}
  {name : String} {since past : List Entry}

/-! ## One call -/

theorem record?_of_not_renews (hr : s.record? name = some r)
    (hn : ¬(Entry.call now o op (s.answer now o op).2).Renews o.owner name)
    (hd : ¬(Entry.call now o op (s.answer now o op).2).Releases r.owner name) :
    (s.answer now o op).1.record? name = some r := by
  by_cases hname : name = o.name
  · have hquiet : (s.answer now o op).2.renews ≠ true := fun h => hn ⟨rfl, hname.symm, h⟩
    by_cases hop : op = .release
    · subst hop
      show (s.release o).1.record? name = some r
      rcases release_cases s o with ⟨r', hr', ho, -⟩ | h
      · -- the record is the caller's own, so the release must have failed
        obtain rfl : r = r' := by
          rw [hname] at hr
          exact Option.some.inj (hr.symm.trans hr')
        rcases release_eq_ok_or s o with hok | h
        · have hans : (s.answer now o .release).2 = .release (.ok ()) := congrArg Answer.release hok
          rw [hans] at hd
          exact absurd ⟨ho.symm, hname.symm⟩ hd
        · rw [h, hr]
      · rw [h, hr]
    · rcases answer_cases s now o hop with ⟨-, h⟩ | ⟨h, -⟩
      · exact absurd h hquiet
      · rw [h, hr]
  · rw [record?_answer_of_ne hname, hr]

theorem record?_of_renews (h : (s.answer now o op).2.renews = true) :
    (s.answer now o op).1.record? o.name = some ⟨o.owner, o.lease.after now⟩ := by
  have hop : op ≠ .release := by
    rintro rfl
    simp [Store.answer, Answer.renews] at h
  rcases answer_cases s now o hop with ⟨hr, -⟩ | ⟨-, hn⟩
  · exact hr
  · rw [h] at hn
    cases hn

/-! ## The record in the course of time -/

/-- **The record stands** as the owner's latest renewal has written it, while its lease lasts, or as
long as nobody else takes the name. -/
theorem Trace.record?_eq (tr : Trace s (since ++ .call t a op answer :: past))
    (hr : answer.renews = true)
    (own : ∀ x ∈ since, ¬x.Renews a.owner a.name ∧ ¬x.Releases a.owner a.name)
    (others : ∀ x ∈ since, x.time < a.lease.after t ∨ ∀ owner, ¬x.Renews owner a.name) :
    s.record? a.name = some ⟨a.owner, a.lease.after t⟩ := by
  induction since generalizing s with
  | nil =>
    cases tr with
    | call => exact record?_of_renews hr
  | cons x since ih =>
    have own' : ∀ y ∈ since, ¬y.Renews a.owner a.name ∧ ¬y.Releases a.owner a.name :=
      fun y hy => own y (List.mem_cons_of_mem _ hy)
    have others' : ∀ y ∈ since, y.time < a.lease.after t ∨ ∀ owner, ¬y.Renews owner a.name :=
      fun y hy => others y (List.mem_cons_of_mem _ hy)
    obtain ⟨hn, hd⟩ := own x List.mem_cons_self
    have hx := others x List.mem_cons_self
    cases tr with
    | @call s₀ _ now o op' tr _ =>
      have hold := ih tr own' others'
      by_cases ho : o.owner = a.owner
      · exact record?_of_not_renews hold (by rwa [ho]) hd
      · rcases hx with hlt | hfree
        · exact record?_answer hold hlt ho op'
        · exact record?_of_not_renews hold (hfree _) hd
    | parted tr _ hp =>
      rw [record?_of_parted hp]
      exact ih tr own' others'

/-- **An owner may rely on its lease.** While it lasts the record is the owner's, others who ask for
it are told so, and none of their calls touches it. Once it has ended, and nobody else has taken the
name, whoever asks for it gets it, and the owner is told that it is lost. -/
theorem lease_guarantee (tr : Trace s (since ++ .call t a op answer :: past))
    (hr : answer.renews = true)
    (own : ∀ x ∈ since, ¬x.Renews a.owner a.name ∧ ¬x.Releases a.owner a.name)
    (hnow : ∀ x ∈ since ++ .call t a op answer :: past, x.time ≤ now) :
    (now < a.lease.after t →
      s.record? a.name = some ⟨a.owner, a.lease.after t⟩ ∧
      ∀ o : Options, o.owner ≠ a.owner →
        (s.Admits now o → o.name = a.name →
          (s.acquire now o).2 = .ok (.occupied (some a.owner)) ∧
          (s.refresh now o).2 = .error (.lost (.takenBy a.owner))) ∧
        ∀ op', (s.answer now o op').1.record? a.name = s.record? a.name) ∧
    (a.lease.after t ≤ now → (∀ x ∈ since, ∀ owner, ¬x.Renews owner a.name) →
      ∀ o : Options, s.Admits now o → o.name = a.name →
        (s.acquire now o).2 = .ok .granted ∧
        (o.owner = a.owner → (s.refresh now o).2 = .error (.lost .expired))) := by
  constructor
  · intro hlt
    have hrec : s.record? a.name = some ⟨a.owner, a.lease.after t⟩ := by
      refine tr.record?_eq hr own fun x hx => .inl ?_
      exact Nat.lt_of_le_of_lt (hnow x (List.mem_append_left _ hx)) hlt
    refine ⟨hrec, fun o ho => ⟨fun hadm hname => ?_, fun op' => ?_⟩⟩
    · rw [← hname] at hrec
      rw [hadm.acquire_of_live hrec hlt ho, hadm.refresh_of_live hrec hlt, if_neg (Ne.symm ho)]
      exact ⟨rfl, rfl⟩
    · rw [record?_answer hrec hlt ho op', hrec]
  · intro hle hfree o hadm hname
    have hrec : s.record? o.name = some ⟨a.owner, a.lease.after t⟩ := by
      rw [hname]
      exact tr.record?_eq hr own fun x hx => .inr (hfree x hx)
    have hended : ∀ r, s.record? o.name = some r → r.expires ≤ now := by
      intro r hr
      obtain rfl := Option.some.inj (hrec.symm.trans hr)
      exact hle
    constructor
    · rw [hadm.acquire_of_free fun r hr hl => absurd hl (Nat.not_lt.2 (hended r hr))]
    · intro _
      rw [hadm.refresh_of_ended hended]

/-- The first of two owners takes a name, and the second one asks for it. -/
theorem lease_guarantee_contested : ∃ s : Store,
    Trace s ([.call 4000000000 (ownedBy "b") .acquire (.acquire (.ok (.occupied (some "a"))))] ++
      [.call 0 (ownedBy "a") .acquire (.acquire (.ok .granted))]) ∧
    s.record? (ownedBy "a").name = some ⟨"a", 10000000000⟩ ∧
    (s.acquire 5000000000 (ownedBy "b")).2 = .ok (.occupied (some "a")) ∧
    (s.acquire 10000000000 (ownedBy "b")).2 = .ok .granted := by
  have taken : Trace _ [.call 0 (ownedBy "a") .acquire (.acquire (.ok .granted))] :=
    (Trace.start {}).call (ownedBy "a") .acquire (by simp)
  have tr : Trace _ ([.call 4000000000 (ownedBy "b") .acquire
      (.acquire (.ok (.occupied (some "a"))))] ++
      [.call 0 (ownedBy "a") .acquire (.acquire (.ok .granted))]) :=
    taken.call (ownedBy "b") .acquire (by simp [Entry.time])
  have own : ∀ x ∈ [Entry.call 4000000000 (ownedBy "b") .acquire
      (.acquire (.ok (.occupied (some "a"))))],
      ∀ owner, ¬x.Renews owner (ownedBy "a").name ∧ ¬x.Releases owner (ownedBy "a").name := by
    simp [Entry.Renews, Entry.Releases, Answer.renews]
  have during := (lease_guarantee tr rfl (fun x hx => own x hx _)
    (by simp [Entry.time])).1 (by decide : 5000000000 < (ownedBy "a").lease.after 0)
  have since := (lease_guarantee tr rfl (fun x hx => own x hx _) (by simp [Entry.time])).2
    (by decide : (ownedBy "a").lease.after 0 ≤ 10000000000) (fun x hx _ => (own x hx _).1)
  refine ⟨_, tr, during.1, ?_, ?_⟩
  · exact ((during.2 (ownedBy "b") (by decide)).1 ⟨List.not_mem_nil, by decide⟩ rfl).1
  · exact (since (ownedBy "b") ⟨List.not_mem_nil, by decide⟩ rfl).1

end LeaseLock.Memory
