import LeaseLock.Proofs.Lookup
import LeaseLock.Proofs.Mongo.Evaluation
import Mathlib.Tactic.Common

/-!
# What the pipelines make of documents

**The condition** (`eval_takeable`). It asks whether the document has ended or is our owner's. The
four fields that hang on it go together: either all of them become ours
(`takePipeline_of_takeable`), or all of them stay (`takePipeline_of_held`). Names, owners and tokens
are literals, so what they look like does not matter.

**Records.** The document of a lock is read as a record, and the pipelines change the record as a
whole: `record_of_taken`, `eq_of_not_takeable`, `record_of_made` and `record_of_kept`.
-/

namespace LeaseLock.Mongo

/-! ## The expressions of the pipelines -/

section Expressions

variable {i : Input} {o : Options} {ours : Bson} {field : String} {c : Bool}

/-- A literal stands for itself, whatever its text is. -/
@[simp] theorem eval_literal (i : Input) (s : String) : eval i (literal s) = .value (.text s) := rfl

@[simp] theorem eval_serverNow (i : Input) : eval i serverNow = .value (.date i.now) := rfl

/-- The name is that of a field, if a dollar sign is put in front of it. -/
def IsField (name : String) : Prop := reference ("$" ++ name) = .field name

instance (name : String) : Decidable (IsField name) := inferInstanceAs (Decidable (_ = _))

theorem eval_stored (h : IsField field) :
    eval i (stored field) = .ofField (i.document.field? field) := by
  unfold IsField at h
  simp only [stored, eval, h]

theorem eval_leaseEnd (i : Input) (o : Options) : eval i (leaseEnd o) =
    if IsTime (i.now + o.wholeMillis) then .value (.date (i.now + o.wholeMillis)) else .fails := rfl

theorem eval_ifTakeable (h : eval i (takeable o) = .value (.bool c)) :
    eval i (ifTakeable o ours field) = if c then eval i ours else eval i (stored field) := by
  have hop : isOperator "$cond" = true := rfl
  simp only [ifTakeable, Bson.single, eval, hop, if_true, evalItems, evalAll, operate, h,
    Value.truth?, Bson.truth]
  cases c <;> rfl

/-- When the document ends; one without an end has ended at the epoch. -/
def Bson.end? (b : Bson) : Option Int :=
  match b.field? "expiredAt" with
  | none | some .null => some 0
  | some (.date millis) => some millis
  | some _ => none

/-- The document carries the owner. -/
def Bson.isOwnedBy (b : Bson) (owner : String) : Bool := b.textField? "ownerID" = some owner

theorem eval_ended {e : Int} (h : i.document.end? = some e) :
    eval i (.single "$lte" (.list [
      .single "$ifNull" (.list [stored "expiredAt", .date 0]), serverNow])) =
      .value (.bool (decide (e ≤ i.now))) := by
  have hend : eval i (.single "$ifNull" (.list [stored "expiredAt", .date 0])) =
      .value (.date e) := by
    show Value.coalesce [eval i (stored "expiredAt"), .value (.date 0)] = _
    rw [eval_stored (by decide)]
    unfold Bson.end? at h
    split at h <;> simp_all [Value.coalesce]
  show Value.ofOrder ((eval i (.single "$ifNull" _)).order? (.value (.date i.now))) _ = _
  rw [hend]
  show Value.value (.bool (compare e i.now).isLE) = _
  congr 2
  rw [Bool.eq_iff_iff, Int.isLE_compare, decide_eq_true_iff]

theorem eval_owned (i : Input) (owner : String) :
    eval i (.single "$eq" (.list [stored "ownerID", literal owner])) =
      .value (.bool (i.document.isOwnedBy owner)) := by
  show Value.ofOrder ((eval i (stored "ownerID")).order? (.value (.text owner))) _ = _
  rw [eval_stored (by decide)]
  unfold Bson.isOwnedBy Bson.textField?
  cases i.document.field? "ownerID" with
  | none => rfl
  | some b =>
    cases b with
    | text s =>
      show Value.value (.bool (compare s owner).isEq) = _
      congr 2
      rw [Bool.eq_iff_iff, decide_eq_true_iff, Option.some_inj, Ordering.isEq_iff_eq_eq,
        Std.compare_eq_iff_eq]
    | null | bool | int32 | int64 | date | list | document => rfl

/-- **The condition of the pipeline**: the document has ended, or is our owner's. -/
theorem eval_takeable {e : Int} (h : i.document.end? = some e) :
    eval i (takeable o) =
      .value (.bool (decide (e ≤ i.now) || i.document.isOwnedBy o.owner)) := by
  show Value.any [eval i (.single "$lte" _), eval i (.single "$eq" _)] = _
  rw [eval_ended h, eval_owned]
  cases decide (e ≤ i.now) <;> cases i.document.isOwnedBy o.owner <;> rfl

end Expressions

/-! ## The documents of locks -/

section Records

variable {b b' : Bson} {fs : List (String × Bson)} {r : Record} {name : String} {v : Bson}
  {now : Int} {o : Options} {token : String}

theorem lookup_setField (name : String) (v : Bson) (fs : List (String × Bson)) (m : String) :
    (setField name v fs).lookup m = if m = name then some v else fs.lookup m := by
  induction fs with
  | nil => exact lookup_cons_ite m name v []
  | cons f fs ih =>
    obtain ⟨n, w⟩ := f
    unfold setField
    dsimp only
    split
    next hn =>
      rw [lookup_cons_ite, lookup_cons_ite, hn]
      split <;> rfl
    next hn =>
      rw [lookup_cons_ite, lookup_cons_ite, ih]
      by_cases hm : m = n
      · rw [if_pos hm, if_pos hm, if_neg (hm ▸ hn)]
      · rw [if_neg hm, if_neg hm]

theorem setField_of_lookup (h : fs.lookup name = some v) : setField name v fs = fs := by
  induction fs with
  | nil => cases h
  | cons f fs ih =>
    obtain ⟨n, w⟩ := f
    rw [lookup_cons_ite] at h
    unfold setField
    dsimp only
    split
    next hn =>
      rw [if_pos hn.symm] at h
      rw [hn, Option.some.inj h]
    next hn =>
      rw [if_neg (Ne.symm hn)] at h
      rw [ih h]

theorem ofBson?_eq_some : Record.ofBson? b = some r ↔
    b.textField? "_id" = some r.id ∧ b.textField? "name" = some r.name ∧
    b.textField? "ownerID" = some r.owner ∧ b.textField? "lockId" = some r.token ∧
    b.dateField? "expiredAt" = some r.expiredAt ∧ b.dateField? "createdAt" = some r.createdAt ∧
    b.dateField? "updatedAt" = some r.updatedAt := by
  unfold Record.ofBson?
  constructor
  · intro h
    simp only [Option.bind_eq_bind, Option.bind_eq_some_iff] at h
    obtain ⟨_, h1, _, h2, _, h3, _, h4, _, h5, _, h6, _, h7, h⟩ := h
    cases h
    exact ⟨h1, h2, h3, h4, h5, h6, h7⟩
  · rintro ⟨h1, h2, h3, h4, h5, h6, h7⟩
    simp [h1, h2, h3, h4, h5, h6, h7]

/-- When a document was made; one without that time is made now. -/
def Bson.created (b : Bson) (now : Int) : Bson :=
  match b.field? "createdAt" with
  | none | some .null => .date now
  | some v => v

theorem eval_created (i : Input) :
    eval i (.single "$ifNull" (.list [stored "createdAt", serverNow])) =
      .value (i.document.created i.now) := by
  show Value.coalesce [eval i (stored "createdAt"), .value (.date i.now)] = _
  rw [eval_stored (by decide)]
  unfold Bson.created
  cases i.document.field? "createdAt" with
  | none => rfl
  | some v => cases v <;> rfl

theorem store?_stored {gs : List (String × Bson)} (h : gs.lookup name = fs.lookup name) :
    (Bson.document gs).store? name (.ofField ((Bson.document fs).field? name)) =
      some (.document gs) := by
  show (Bson.document gs).store? name (.ofField (fs.lookup name)) = _
  rw [← h]
  cases hv : gs.lookup name with
  | some v => exact congrArg (fun gs => some (Bson.document gs)) (setField_of_lookup hv)
  | none =>
    have hfilter : gs.filter (·.1 ≠ name) = gs := by
      refine List.filter_eq_self.2 fun f hf => decide_eq_true fun heq => ?_
      have hne := List.lookup_eq_none_iff.1 hv f hf
      simp [heq] at hne
    exact congrArg (fun gs => some (Bson.document gs)) hfilter

/-- The fields of a document that was taken. -/
def takenFields (o : Options) (token : String) (now : Int) (fs : List (String × Bson)) :
    List (String × Bson) :=
  setField "updatedAt" (.date now) <|
  setField "createdAt" ((Bson.document fs).created now) <|
  setField "expiredAt" (.date (now + o.wholeMillis)) <|
  setField "lockId" (.text token) <|
  setField "ownerID" (.text o.owner) <|
  setField "name" (.text o.name) fs

theorem update?_singleton (now : Int) (b stage : Bson) :
    update? now b [stage] = setStage? now b stage := by
  simp [update?]

/-- What the stage that takes a document stores, field by field. -/
theorem update?_takePipeline (now : Int) (b : Bson) (o : Options) (token : String) :
    update? now b (takePipeline o token) =
      [("name", .value (.text o.name)),
        ("ownerID", eval ⟨b, now⟩ (ifTakeable o (literal o.owner) "ownerID")),
        ("lockId", eval ⟨b, now⟩ (ifTakeable o (literal token) "lockId")),
        ("expiredAt", eval ⟨b, now⟩ (ifTakeable o (leaseEnd o) "expiredAt")),
        ("createdAt", .value (b.created now)),
        ("updatedAt", eval ⟨b, now⟩ (ifTakeable o serverNow "updatedAt"))].foldlM
        (fun (b : Bson) (f : String × Value) => b.store? f.1 f.2) b := by
  have hcreated := eval_created ⟨b, now⟩
  simp only at hcreated
  rw [← hcreated]
  rw [takePipeline, update?_singleton]
  rfl

/-- **A document that has ended, or is our owner's, is taken as a whole.** -/
theorem takePipeline_of_takeable {e : Int} (he : (Bson.document fs).end? = some e)
    (ht : e ≤ now ∨ (Bson.document fs).isOwnedBy o.owner = true) :
    update? now (.document fs) (takePipeline o token) =
      if IsTime (now + o.wholeMillis) then some (.document (takenFields o token now fs))
      else none := by
  have hc : eval ⟨.document fs, now⟩ (takeable o) = .value (.bool true) := by
    rw [eval_takeable he]
    rcases ht with h | h <;> simp [h]
  simp only [update?_takePipeline, eval_ifTakeable hc, if_true, eval_literal, eval_leaseEnd,
    eval_serverNow]
  split <;> rfl

/-- **A document that has not ended, and is another owner's, stays**, up to its name. -/
theorem takePipeline_of_held {e : Int} (he : (Bson.document fs).end? = some e)
    (hn : now < e) (ho : (Bson.document fs).isOwnedBy o.owner = false) :
    update? now (.document fs) (takePipeline o token) =
      some (.document (setField "createdAt" ((Bson.document fs).created now) <|
        setField "name" (.text o.name) fs)) := by
  have hc : eval ⟨.document fs, now⟩ (takeable o) = .value (.bool false) := by
    rw [eval_takeable he, ho]
    simpa using hn
  simp only [update?_takePipeline, eval_ifTakeable hc, Bool.false_eq_true, if_false,
    List.foldlM_cons, List.foldlM_nil, eval_stored (show IsField "ownerID" by decide),
    eval_stored (show IsField "lockId" by decide), eval_stored (show IsField "expiredAt" by decide),
    eval_stored (show IsField "updatedAt" by decide)]
  have hset : ∀ (gs : List (String × Bson)) (name : String) (v : Bson),
      (Bson.document gs).store? name (.value v) = some (.document (setField name v gs)) :=
    fun _ _ _ => rfl
  simp [hset, store?_stored, lookup_setField]

theorem update?_keepPipeline (now : Int) (fs : List (String × Bson)) (o : Options) :
    update? now (.document fs) (keepPipeline o) =
      if IsTime (now + o.wholeMillis) then
        some (.document (setField "updatedAt" (.date now) <|
          setField "expiredAt" (.date (now + o.wholeMillis)) fs))
      else none := by
  rw [keepPipeline, update?_singleton]
  show List.foldlM (fun (b : Bson) (f : String × Value) => b.store? f.1 f.2) (Bson.document fs)
    [("expiredAt", eval ⟨.document fs, now⟩ (leaseEnd o)), ("updatedAt", .value (.date now))] = _
  rw [eval_leaseEnd]
  split <;> rfl

/-! ## Their records -/

/-- The record may be taken. -/
def Record.IsTakeable (r : Record) (o : Options) (now : Int) : Prop :=
  r.expiredAt ≤ now ∨ r.owner = o.owner

/-- The record after it was taken. -/
def Record.taken (r : Record) (o : Options) (token : String) (now : Int) : Record :=
  { r with
    name := o.name, owner := o.owner, token, expiredAt := now + o.wholeMillis, updatedAt := now }

/-- The record after its end was moved. -/
def Record.kept (r : Record) (o : Options) (now : Int) : Record :=
  { r with expiredAt := now + o.wholeMillis, updatedAt := now }

/-- A record that is made. -/
def Record.fresh (o : Options) (token : String) (now : Int) : Record :=
  ⟨o.name, o.name, o.owner, token, now + o.wholeMillis, now, now⟩

theorem textField?_eq_some {s : String} : b.textField? name = some s ↔
    b.field? name = some (.text s) := by
  unfold Bson.textField?
  split <;> simp_all

theorem dateField?_eq_some {d : Int} : b.dateField? name = some d ↔
    b.field? name = some (.date d) := by
  unfold Bson.dateField?
  split <;> simp_all

@[simp] theorem field?_setField (m : String) : (Bson.document (setField name v fs)).field? m =
    if m = name then some v else (Bson.document fs).field? m :=
  lookup_setField name v fs m

theorem exists_fields (hr : Record.ofBson? b = some r) : ∃ fs, b = .document fs := by
  have hid := textField?_eq_some.1 (ofBson?_eq_some.1 hr).1
  unfold Bson.field? at hid
  split at hid
  next fs => exact ⟨fs, rfl⟩
  · cases hid

theorem end?_of_record (hr : Record.ofBson? b = some r) : b.end? = some r.expiredAt := by
  obtain ⟨-, -, -, -, hend, -, -⟩ := ofBson?_eq_some.1 hr
  rw [Bson.end?, dateField?_eq_some.1 hend]

theorem isOwnedBy_of_record (hr : Record.ofBson? b = some r) :
    b.isOwnedBy o.owner = decide (r.owner = o.owner) := by
  obtain ⟨-, -, howner, -, -, -, -⟩ := ofBson?_eq_some.1 hr
  simp [Bson.isOwnedBy, howner]

theorem created_of_record (hr : Record.ofBson? b = some r) :
    b.created now = .date r.createdAt := by
  obtain ⟨-, -, -, -, -, hmade, -⟩ := ofBson?_eq_some.1 hr
  rw [Bson.created, dateField?_eq_some.1 hmade]

/-- **Taking the document of a lock** makes its record ours, all fields together. -/
theorem record_of_taken (hr : Record.ofBson? b = some r) (ht : r.IsTakeable o now)
    (hu : update? now b (takePipeline o token) = some b') :
    Record.ofBson? b' = some (r.taken o token now) := by
  obtain ⟨fs, rfl⟩ := exists_fields hr
  have ht : r.expiredAt ≤ now ∨ (Bson.document fs).isOwnedBy o.owner = true := by
    rw [isOwnedBy_of_record hr, decide_eq_true_iff]
    exact ht
  rw [takePipeline_of_takeable (end?_of_record hr) ht] at hu
  split at hu
  · cases hu
    rw [takenFields, created_of_record hr]
    simp only [ofBson?_eq_some, textField?_eq_some, dateField?_eq_some] at hr ⊢
    simp [Record.taken, hr.1]
  · cases hu

/-- **A document that is not to be taken is left as it is.** -/
theorem eq_of_not_takeable (hr : Record.ofBson? b = some r) (ht : ¬ r.IsTakeable o now)
    (hn : r.name = o.name) (hu : update? now b (takePipeline o token) = some b') : b' = b := by
  obtain ⟨fs, rfl⟩ := exists_fields hr
  obtain ⟨hend, howner⟩ := not_or.1 ht
  have ho : (Bson.document fs).isOwnedBy o.owner = false := by
    rw [isOwnedBy_of_record hr, decide_eq_false howner]
  obtain ⟨-, hname, -, -, -, hmade, -⟩ := ofBson?_eq_some.1 hr
  rw [takePipeline_of_held (end?_of_record hr) (Int.not_le.1 hend) ho, ← hn,
    setField_of_lookup (textField?_eq_some.1 hname), created_of_record hr,
    setField_of_lookup (dateField?_eq_some.1 hmade)] at hu
  exact (Option.some.inj hu).symm

/-- **A document that is made** has a fresh record. -/
theorem record_of_made (hn : 0 ≤ now)
    (hu : update? now (.single "_id" (.text o.name)) (takePipeline o token) = some b') :
    Record.ofBson? b' = some (.fresh o token now) := by
  have hend : (Bson.document [("_id", .text o.name)]).end? = some 0 := rfl
  rw [Bson.single, takePipeline_of_takeable hend (.inl hn)] at hu
  split at hu
  · cases hu
    rfl
  · cases hu

/-- **Keeping the document of a lock** moves its end. -/
theorem record_of_kept (hr : Record.ofBson? b = some r)
    (hu : update? now b (keepPipeline o) = some b') :
    Record.ofBson? b' = some (r.kept o now) := by
  obtain ⟨fs, rfl⟩ := exists_fields hr
  rw [update?_keepPipeline] at hu
  split at hu
  · cases hu
    simp only [ofBson?_eq_some, textField?_eq_some, dateField?_eq_some] at hr ⊢
    obtain ⟨hid, hname, howner, htoken, -, hmade, -⟩ := hr
    simp [Record.kept, hid, hname, howner, htoken, hmade]
  · cases hu

end Records

end LeaseLock.Mongo
