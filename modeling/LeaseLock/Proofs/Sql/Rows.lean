import LeaseLock.Proofs.Sql.Transactions
import Mathlib.Data.List.Nodup
import Mathlib.Tactic.Common

/-!
# The record of a lock among the rows

What an operation finds under the name of its lock and what it leaves there, read off `transact`.

**Names.** No name comes twice, and no operation changes that (`unique_transact`). An operation
touches the record of its own name only (`row?_transact_of_ne`).

**One operation.** An attempt adds the record, finds it in the way, or takes it over
(`acquireRows_cases`). A refresh and a release touch the record of their owner, or nothing
(`refresh_cases`, `release_cases`).
-/

namespace LeaseLock.Sql

variable {rows : List Row} {name : String} {reading : Int} {o : Options}

theorem row?_eq_some {r : Row} (h : Database.row? rows name = some r) :
    r ∈ rows ∧ r.name = name :=
  ⟨List.mem_of_find?_eq_some h, by simpa using List.find?_some h⟩

theorem row?_of_mem {r : Row} (hu : (rows.map Row.name).Nodup) (h : r ∈ rows) :
    Database.row? rows r.name = some r := by
  cases hf : Database.row? rows r.name with
  | none =>
    have hne := List.find?_eq_none.1 hf r h
    simp at hne
  | some r' =>
    obtain ⟨hm, hn⟩ := row?_eq_some hf
    rw [List.inj_on_of_nodup_map hu hm h hn]

theorem row?_change {p : Row → Bool} {f : Row → Row} (hf : ∀ r, (f r).name = r.name) :
    Database.row? (change p f rows) name =
      (Database.row? rows name).map fun r => if p r then f r else r := by
  have hname : ∀ r, (if p r then f r else r).name = r.name := by
    intro r
    split
    · exact hf r
    · rfl
  simp only [Database.row?, change, List.find?_map, Function.comp_def, hname]

theorem map_name_change {p : Row → Bool} {f : Row → Row} (hf : ∀ r, (f r).name = r.name) :
    (change p f rows).map Row.name = rows.map Row.name := by
  rw [change, List.map_map]
  refine List.map_congr_left fun r _ => ?_
  simp only [Function.comp_apply]
  split
  · exact hf r
  · rfl

/-- **No name comes twice**, whatever the operation is. -/
theorem unique_transact (hu : (rows.map Row.name).Nodup) (reading : Int) (o : Options) (op : Op) :
    ((transact reading o op rows).1.map Row.name).Nodup := by
  cases op with
  | acquire =>
    show ((acquireRows reading o rows).1.map Row.name).Nodup
    unfold acquireRows
    cases hr : Database.row? rows o.name with
    | none =>
      have hnone : o.name ∉ rows.map Row.name := by
        intro h
        obtain ⟨r, hm, hn⟩ := List.mem_map.1 h
        simpa [hn] using List.find?_eq_none.1 hr r hm
      simpa [List.nodup_append, hu, freshRow] using hnone
    | some r =>
      dsimp only
      split
      · exact hu
      · rwa [map_name_change (f := takenRow reading o) fun _ => rfl]
  | refresh => exact (map_name_change (f := keptRow reading o) fun _ => rfl).symm ▸ hu
  | release => exact (List.filter_sublist.map Row.name).nodup hu

/-- **What becomes of the record of the lock** by an attempt. -/
theorem acquireRows_cases (reading : Int) (o : Options) (rows : List Row) :
    (Database.row? rows o.name = none ∧ (acquireRows reading o rows).2 = .granted ∧
      Database.row? (acquireRows reading o rows).1 o.name = some (freshRow reading o)) ∨
    (∃ r, Database.row? rows o.name = some r ∧ reading ≤ r.expiredAt ∧
      acquireRows reading o rows = (rows, .occupied (some r.owner))) ∨
    ∃ r, Database.row? rows o.name = some r ∧ r.expiredAt < reading ∧
      (acquireRows reading o rows).2 = .granted ∧
      Database.row? (acquireRows reading o rows).1 o.name = some (takenRow reading o r) := by
  unfold acquireRows
  cases hr : Database.row? rows o.name with
  | none =>
    refine .inl ⟨rfl, rfl, ?_⟩
    show (rows ++ [freshRow reading o]).find? _ = _
    unfold Database.row? at hr
    rw [List.find?_append, hr]
    simp [freshRow]
  | some r =>
    have hname : r.name = o.name := (row?_eq_some hr).2
    by_cases he : reading ≤ r.expiredAt
    · exact .inr (.inl ⟨r, rfl, he, by simp [he]⟩)
    · refine .inr (.inr ⟨r, rfl, by omega, by simp [he], ?_⟩)
      simp only [he, if_false]
      rw [row?_change (f := takenRow reading o) fun _ => rfl, hr, Option.map_some, if_pos]
      simp [ended, hname, Int.lt_of_not_ge he]

/-- Whether a refresh or a release finds its owner's record. -/
theorem owned_cases (hu : (rows.map Row.name).Nodup) (o : Options) :
    (∃ r, Database.row? rows o.name = some r ∧ r.owner = o.owner ∧ rows.any (owned o) = true) ∨
    ((∀ r, Database.row? rows o.name = some r → r.owner ≠ o.owner) ∧
      ∀ r ∈ rows, owned o r = false) := by
  by_cases h : ∃ r ∈ rows, owned o r = true
  · obtain ⟨r, hm, hp⟩ := h
    have hboth : r.name = o.name ∧ r.owner = o.owner := by simpa [owned] using hp
    exact .inl ⟨r, hboth.1 ▸ row?_of_mem hu hm, hboth.2, List.any_eq_true.2 ⟨r, hm, hp⟩⟩
  · refine .inr ⟨fun r hr ho => h ⟨r, (row?_eq_some hr).1, ?_⟩, fun r hm => ?_⟩
    · simp [owned, (row?_eq_some hr).2, ho]
    · exact Bool.eq_false_iff.2 fun hp => h ⟨r, hm, hp⟩

theorem change_of_forall_false {p : Row → Bool} {f : Row → Row} (h : ∀ r ∈ rows, p r = false) :
    change p f rows = rows := by
  refine (List.map_congr_left fun r hr => ?_).trans (List.map_id rows)
  simp [h r hr]

/-- **What becomes of the record of the lock** by a refresh. -/
theorem refresh_cases (hu : (rows.map Row.name).Nodup) (reading : Int) (o : Options) :
    (∃ r, Database.row? rows o.name = some r ∧ r.owner = o.owner ∧
      (transact reading o .refresh rows).2 = .refresh (.ok ()) ∧
      Database.row? (transact reading o .refresh rows).1 o.name = some (keptRow reading o r)) ∨
    ((∀ r, Database.row? rows o.name = some r → r.owner ≠ o.owner) ∧
      transact reading o .refresh rows =
        (rows, .refresh (.error (.lost (.row o.name o.owner))))) := by
  rcases owned_cases hu o with ⟨r, hr, ho, hany⟩ | ⟨hne, hnone⟩
  · refine .inl ⟨r, hr, ho, by simp [transact, hany], ?_⟩
    show Database.row? (change (owned o) (keptRow reading o) rows) o.name = _
    rw [row?_change (f := keptRow reading o) fun _ => rfl, hr, Option.map_some, if_pos]
    simp [owned, (row?_eq_some hr).2, ho]
  · refine .inr ⟨hne, ?_⟩
    have hany : rows.any (owned o) = false := by simpa using hnone
    simp [transact, hany, change_of_forall_false hnone]

/-- **What becomes of the record of the lock** by a release. -/
theorem release_cases (hu : (rows.map Row.name).Nodup) (reading : Int) (o : Options) :
    (∃ r, Database.row? rows o.name = some r ∧ r.owner = o.owner ∧
      Database.row? (transact reading o .release rows).1 o.name = none) ∨
    ((∀ r, Database.row? rows o.name = some r → r.owner ≠ o.owner) ∧
      (transact reading o .release rows).1 = rows) := by
  rcases owned_cases hu o with ⟨r, hr, ho, -⟩ | ⟨hne, hnone⟩
  · refine .inl ⟨r, hr, ho, List.find?_eq_none.2 fun r' hm => ?_⟩
    obtain ⟨hm', hp⟩ := List.mem_filter.1 hm
    rintro hn
    have hn' : r'.name = o.name := by simpa using hn
    have := row?_of_mem hu hm'
    rw [hn', hr] at this
    cases this
    simp [owned, hn', ho] at hp
  · refine .inr ⟨hne, List.filter_eq_self.2 fun r hm => ?_⟩
    simp [hnone r hm]

theorem row?_change_of_ne {p : Row → Bool} {f : Row → Row} (hf : ∀ r, (f r).name = r.name)
    (hp : ∀ r, p r = true → r.name ≠ name) :
    Database.row? (change p f rows) name = Database.row? rows name := by
  rw [row?_change hf]
  cases hr : Database.row? rows name with
  | none => rfl
  | some r =>
    have hp' : p r = false := Bool.eq_false_iff.2 fun h => hp r h (row?_eq_some hr).2
    simp [hp']

/-- **Only the record of the operation's own name is touched.** -/
theorem row?_transact_of_ne (hn : name ≠ o.name) (reading : Int) (op : Op) :
    Database.row? (transact reading o op rows).1 name = Database.row? rows name := by
  have hended : ∀ r, ended reading o r = true → r.name ≠ name := by
    intro r h
    simp only [ended, decide_eq_true_eq] at h
    exact fun hr => hn (hr.symm.trans h.1)
  have howned : ∀ r, owned o r = true → r.name ≠ name := by
    intro r h
    simp only [owned, decide_eq_true_eq] at h
    exact fun hr => hn (hr.symm.trans h.1)
  cases op with
  | acquire =>
    show Database.row? (acquireRows reading o rows).1 name = _
    unfold acquireRows
    cases Database.row? rows o.name with
    | none => simp [Database.row?, freshRow, Ne.symm hn]
    | some r =>
      dsimp only
      split
      · rfl
      · exact row?_change_of_ne (fun _ => rfl) hended
  | refresh => exact row?_change_of_ne (fun _ => rfl) howned
  | release =>
    show (rows.filter (!owned o ·)).find? _ = _
    rw [List.find?_filter]
    congr 1
    funext r
    cases hr : owned o r with
    | false => simp
    | true => simp [howned r hr]

end LeaseLock.Sql
