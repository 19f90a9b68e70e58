import LeaseLock.Memory.Store
import LeaseLock.Proofs.Locker.History

/-!
# Records of the store in memory

What one call does to the records: a granted attempt and a refresh that succeeds write a record that
lasts a lease (`answer_cases`); any other attempt or refresh writes nothing, and a release deletes
the caller's own record at most (`store_cases`). Main result: `record?_answer`, by which no call of
another owner touches a live record.

**Calls that are let through** (`Admits`). What the answer is to a call of an owner that can reach
the store, with a lease that the clock can show; and why a refresh fails (`refresh_error`).
-/

namespace LeaseLock.Memory.Store

variable {s s' : Store} {now ends : Instant} {o : Options} {name : String} {r : Record} {op : Op}

@[simp] theorem record?_isolate (s : Store) (owner name : String) :
    (s.isolate owner).record? name = s.record? name := rfl

@[simp] theorem record?_rejoin (s : Store) (owner name : String) :
    (s.rejoin owner).record? name = s.record? name := rfl

theorem record?_erase (s : Store) (n name : String) :
    (s.erase n).record? name = if name = n then none else s.record? name :=
  lookup_filter_ne name n s.records

theorem record?_insert (s : Store) (n : String) (r : Record) (name : String) :
    (s.insert n r).record? name = if name = n then some r else s.record? name := by
  show ((n, r) :: (s.erase n).records).lookup name = _
  rw [lookup_cons_ite]
  by_cases hn : name = n
  · rw [if_pos hn, if_pos hn]
  · rw [if_neg hn, if_neg hn]
    exact (record?_erase s n name).trans (if_neg hn)

theorem liveOwner?_eq_some_iff {owner : String} : s.liveOwner? now name = some owner ↔
    ∃ r, s.record? name = some r ∧ now < r.expires ∧ r.owner = owner := by
  simp [liveOwner?, Record.isLive, and_assoc]

theorem liveOwner?_of_record? (h : s.record? name = some r) (hl : now < r.expires) :
    s.liveOwner? now name = some r.owner :=
  liveOwner?_eq_some_iff.2 ⟨r, h, hl, rfl⟩

/-! ## One call -/

theorem leaseEnd_eq_ok (h : leaseEnd now o = .ok ends) : ends = o.lease.after now := by
  simp only [leaseEnd] at h
  split at h <;> cases h
  rfl

/-- An attempt writes the record, and is granted, or leaves the records as they are. -/
theorem acquire_cases (s : Store) (now : Instant) (o : Options) :
    (s.acquire now o = (s.insert o.name ⟨o.owner, o.lease.after now⟩, .ok .granted) ∧
        ∀ r, s.record? o.name = some r → now < r.expires → r.owner = o.owner) ∨
      ∃ result, s.acquire now o = (s, result) ∧ (Answer.acquire result).renews = false := by
  unfold acquire
  split
  · exact .inr ⟨_, rfl, rfl⟩
  · exact .inr ⟨_, rfl, rfl⟩
  next ends _ he =>
    obtain rfl := leaseEnd_eq_ok he
    split
    next r hr =>
      split
      · exact .inr ⟨_, rfl, rfl⟩
      next hn =>
        refine .inl ⟨rfl, fun r' hr' hl => ?_⟩
        obtain rfl := Option.some.inj (hr.symm.trans hr')
        by_contra hne
        exact hn ⟨by simpa [Record.isLive] using hl, hne⟩
    next hr => exact .inl ⟨rfl, fun r' hr' => by simp [hr] at hr'⟩

/-- A refresh writes the owner's own record, and succeeds, or leaves the records as they are. -/
theorem refresh_cases (s : Store) (now : Instant) (o : Options) :
    (s.refresh now o = (s.insert o.name ⟨o.owner, o.lease.after now⟩, .ok ()) ∧
        ∃ r, s.record? o.name = some r ∧ r.owner = o.owner) ∨
      ∃ e, s.refresh now o = (s, .error e) := by
  unfold refresh
  split
  · exact .inr ⟨_, rfl⟩
  · exact .inr ⟨_, rfl⟩
  next ends _ he =>
    obtain rfl := leaseEnd_eq_ok he
    split
    next r hr =>
      split
      · exact .inr ⟨_, rfl⟩
      · split
        next ho => exact .inl ⟨by rw [ho], r, hr, ho⟩
        · exact .inr ⟨_, rfl⟩
    · exact .inr ⟨_, rfl⟩

theorem release_cases (s : Store) (o : Options) :
    (∃ r, s.record? o.name = some r ∧ r.owner = o.owner ∧ (s.release o).1 = s.erase o.name) ∨
      (s.release o).1 = s := by
  unfold release
  split
  · exact .inr rfl
  · split
    next r hr =>
      split
      next ho => exact .inl ⟨r, hr, ho, rfl⟩
      · exact .inr rfl
    · exact .inr rfl

theorem op_answer (s : Store) (now : Instant) (o : Options) (op : Op) :
    (s.answer now o op).2.op = op := by
  cases op <;> rfl

theorem answer_cases (s : Store) (now : Instant) (o : Options) (hop : op ≠ .release) :
    ((s.answer now o op).1.record? o.name = some ⟨o.owner, o.lease.after now⟩ ∧
        (s.answer now o op).2.renews = true) ∨
      (s.answer now o op).1 = s ∧ (s.answer now o op).2.renews = false := by
  have written : (s.insert o.name ⟨o.owner, o.lease.after now⟩).record? o.name =
      some ⟨o.owner, o.lease.after now⟩ := by
    rw [record?_insert, if_pos rfl]
  cases op with
  | acquire =>
    rcases acquire_cases s now o with ⟨h, -⟩ | ⟨result, h, hn⟩ <;> simp only [answer, Prod.map, h]
    · exact .inl ⟨written, rfl⟩
    · exact .inr ⟨rfl, hn⟩
  | refresh =>
    rcases refresh_cases s now o with ⟨h, -⟩ | ⟨e, h⟩ <;> simp only [answer, Prod.map, h]
    · exact .inl ⟨written, rfl⟩
    · exact .inr ⟨rfl, rfl⟩
  | release => exact absurd rfl hop

theorem begin_eq (s : Store) (site : Site) (o : Options) (op : Op) (now : Instant) :
    Service.begin s site o op now = ((s.answer now o op).1, .answered (s.answer now o op).2) := rfl

/-- What a call makes of the store: it leaves it as it is, writes the caller's record where nobody
else's is live, or deletes the caller's own record. -/
theorem store_cases (s : Store) (now : Instant) (o : Options) (op : Op) :
    (s.answer now o op).1 = s ∨
      ((s.answer now o op).1 = s.insert o.name ⟨o.owner, o.lease.after now⟩ ∧
        ∀ r, s.record? o.name = some r → now < r.expires → r.owner = o.owner) ∨
      ((s.answer now o op).1 = s.erase o.name ∧
        ∀ r, s.record? o.name = some r → r.owner = o.owner) := by
  have only {r' : Record} (hr' : s.record? o.name = some r') (ho : r'.owner = o.owner) :
      ∀ r, s.record? o.name = some r → r.owner = o.owner := by
    intro r hr
    obtain rfl := Option.some.inj (hr.symm.trans hr')
    exact ho
  cases op with
  | acquire =>
    rcases acquire_cases s now o with ⟨h, hown⟩ | ⟨_, h, -⟩
    · exact .inr (.inl ⟨congrArg Prod.fst h, hown⟩)
    · exact .inl (congrArg Prod.fst h)
  | refresh =>
    rcases refresh_cases s now o with ⟨h, r, hr, ho⟩ | ⟨_, h⟩
    · exact .inr (.inl ⟨congrArg Prod.fst h, fun r hr' _ => only hr ho r hr'⟩)
    · exact .inl (congrArg Prod.fst h)
  | release =>
    rcases release_cases s o with ⟨r, hr, ho, h⟩ | h
    · exact .inr (.inr ⟨h, only hr ho⟩)
    · exact .inl h

theorem record?_answer_of_ne (hn : name ≠ o.name) (op : Op) :
    (s.answer now o op).1.record? name = s.record? name := by
  rcases store_cases s now o op with h | ⟨h, -⟩ | ⟨h, -⟩ <;> rw [h]
  · rw [record?_insert, if_neg hn]
  · rw [record?_erase, if_neg hn]

/-- **No call of another owner touches a live record.** -/
theorem record?_answer (hr : s.record? name = some r) (hl : now < r.expires)
    (ho : o.owner ≠ r.owner) (op : Op) : (s.answer now o op).1.record? name = some r := by
  by_cases hn : name = o.name
  · subst hn
    rcases store_cases s now o op with h | ⟨-, hown⟩ | ⟨-, hown⟩
    · rw [h, hr]
    · exact absurd (hown r hr hl).symm ho
    · exact absurd (hown r hr).symm ho
  · rw [record?_answer_of_ne hn, hr]

theorem release_eq_ok_or (s : Store) (o : Options) :
    (s.release o).2 = .ok () ∨ (s.release o).1 = s := by
  unfold release
  split
  · exact .inr rfl
  · split
    · split <;> exact .inl rfl
    · exact .inl rfl

theorem record?_of_answer (ho : o.owner ≠ r.owner)
    (hr : (s.answer now o op).1.record? name = some r) : s.record? name = some r := by
  by_cases hn : name = o.name
  · subst hn
    rcases store_cases s now o op with h | ⟨h, -⟩ | ⟨h, -⟩ <;> rw [h] at hr
    · exact hr
    · rw [record?_insert, if_pos rfl] at hr
      cases hr
      exact absurd rfl ho
    · rw [record?_erase, if_pos rfl] at hr
      cases hr
  · rwa [record?_answer_of_ne hn] at hr

theorem cutOff_answer (s : Store) (now : Instant) (o : Options) (op : Op) :
    (s.answer now o op).1.cutOff = s.cutOff := by
  rcases store_cases s now o op with h | ⟨h, -⟩ | ⟨h, -⟩ <;> rw [h] <;> rfl

theorem record?_of_granted (h : (s.acquire now o).2 = .ok .granted) :
    (s.acquire now o).1.record? o.name = some ⟨o.owner, o.lease.after now⟩ := by
  rcases acquire_cases s now o with ⟨ha, -⟩ | ⟨_, ha, hn⟩
  · rw [ha, record?_insert, if_pos rfl]
  · rw [ha] at h
    obtain rfl := h
    cases hn

/-- A refresh succeeds, and the record lasts a lease from now, or it fails and changes nothing. -/
theorem refresh_written (s : Store) (now : Instant) (o : Options) :
    ((s.refresh now o).2 = .ok () ∧
        (s.refresh now o).1.record? o.name = some ⟨o.owner, o.lease.after now⟩) ∨
      ∃ e, s.refresh now o = (s, .error e) := by
  refine (refresh_cases s now o).imp_left ?_
  rintro ⟨h, -⟩
  rw [h, record?_insert, if_pos rfl]
  exact ⟨rfl, rfl⟩

/-- Why a refresh fails: the owner is cut off, or the clock cannot show the end of the lease, or
there is no live record of the owner. -/
theorem refresh_error {e : LockError} (h : (s.refresh now o).2 = .error e) :
    (∃ report, e = .unavailable report) ∨ (∃ fault, e = .misconfigured fault) ∨
      (∃ loss, e = .lost loss) ∧
        ∀ r, s.record? o.name = some r → now < r.expires → r.owner ≠ o.owner := by
  unfold refresh at h
  split at h
  next hr =>
    cases h
    unfold reach at hr
    split at hr <;> cases hr
    exact .inl ⟨_, rfl⟩
  next he =>
    cases h
    simp only [leaseEnd] at he
    split at he <;> cases he
    exact .inr (.inl ⟨_, rfl⟩)
  · split at h
    next r hr =>
      split at h
      next hl =>
        cases h
        refine .inr (.inr ⟨⟨_, rfl⟩, fun r' hr' hlive => ?_⟩)
        obtain rfl := Option.some.inj (hr.symm.trans hr')
        exact absurd (by simpa [Record.isLive] using hlive) hl
      · split at h
        · cases h
        next ho =>
          cases h
          refine .inr (.inr ⟨⟨_, rfl⟩, fun r' hr' _ => ?_⟩)
          obtain rfl := Option.some.inj (hr.symm.trans hr')
          exact ho
    next hr =>
      cases h
      exact .inr (.inr ⟨⟨_, rfl⟩, fun r' hr' => by simp [hr] at hr'⟩)

theorem ne_notHeld_of_refresh {e : LockError} (h : (s.refresh now o).2 = .error e) :
    e ≠ .notHeld := by
  rintro rfl
  rcases refresh_error h with ⟨_, h⟩ | ⟨_, h⟩ | ⟨⟨_, h⟩, -⟩ <;> cases h

/-! ## Calls that are let through -/

/-- The owner can reach the store, and the clock can show the end of a lease that starts now. -/
def Admits (s : Store) (now : Instant) (o : Options) : Prop :=
  o.owner ∉ s.cutOff ∧ o.lease.after now < clockRange

theorem Admits.reach (ha : s.Admits now o) : s.reach o.owner = .ok () := if_neg ha.1

theorem Admits.leaseEnd (ha : s.Admits now o) :
    Store.leaseEnd now o = .ok (o.lease.after now) := if_neg (Nat.not_le.2 ha.2)

theorem Admits.acquire_of_live (ha : s.Admits now o) (hr : s.record? o.name = some r)
    (hl : now < r.expires) (ho : o.owner ≠ r.owner) :
    s.acquire now o = (s, .ok (.occupied (some r.owner))) := by
  have hlive : r.isLive now ∧ r.owner ≠ o.owner := ⟨by simpa [Record.isLive] using hl, ho.symm⟩
  simp only [Store.acquire, ha.reach, ha.leaseEnd, hr, if_pos hlive]

theorem Admits.acquire_of_free (ha : s.Admits now o)
    (hf : ∀ r, s.record? o.name = some r → now < r.expires → r.owner = o.owner) :
    s.acquire now o = (s.insert o.name ⟨o.owner, o.lease.after now⟩, .ok .granted) := by
  cases hr : s.record? o.name with
  | none => simp only [Store.acquire, ha.reach, ha.leaseEnd, hr]
  | some r =>
    have hlive : ¬(r.isLive now ∧ r.owner ≠ o.owner) := by
      rintro ⟨hl, hne⟩
      exact hne (hf r hr (by simpa [Record.isLive] using hl))
    simp only [Store.acquire, ha.reach, ha.leaseEnd, hr, if_neg hlive]

theorem Admits.refresh_of_live (ha : s.Admits now o) (hr : s.record? o.name = some r)
    (hl : now < r.expires) :
    s.refresh now o =
      if r.owner = o.owner then (s.insert o.name ⟨r.owner, o.lease.after now⟩, .ok ())
      else (s, .error (.lost (.takenBy r.owner))) := by
  have hlive : r.isLive now = true := by simpa [Record.isLive] using hl
  simp only [Store.refresh, ha.reach, ha.leaseEnd, hr, hlive, not_true_eq_false, if_false]

theorem Admits.refresh_of_ended (ha : s.Admits now o)
    (hr : ∀ r, s.record? o.name = some r → r.expires ≤ now) :
    s.refresh now o = (s, .error (.lost .expired)) := by
  cases h : s.record? o.name with
  | none => simp only [Store.refresh, ha.reach, ha.leaseEnd, h]
  | some r =>
    have hlive : ¬r.isLive now = true := by simpa [Record.isLive] using hr r h
    simp only [Store.refresh, ha.reach, ha.leaseEnd, h, if_pos hlive]

end LeaseLock.Memory.Store
