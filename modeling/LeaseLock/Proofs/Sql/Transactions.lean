import LeaseLock.Sql.Adapter
import Mathlib.Data.List.Nodup
import Mathlib.Tactic.Common

/-!
# What the operations make of the rows

**In order** (`InOrder`). A database that has the lock table, is open, is in no transaction and
locks rows if its dialect asks for it. No two rows have the same name.

**An operation as a whole** (`transact`). Each operation is one transaction, which turns rows into
rows and comes to an answer. The statements, the nested transaction for the new row and the reply
to each of them are gone from this description.

Main result: `run_adapter`. On a database in order, the talk of an operation does what `transact`
says, and leaves the database in order.
-/

namespace LeaseLock.Sql

variable {α β : Type} {d : Dialect} {db : Database} {rows : List Row} {name : String}
  {reading : Int} {o : Options}

/-! ## Holding a talk with a database -/

/-- What becomes of the database by a talk, and what the talk comes to. -/
def hold (db : Database) : Talk Command Response α → Database × α
  | .done a => (db, a)
  | .ask q _ next => hold (db.answer q).1 (next (db.answer q).2)
  | .tell q next => hold (db.answer q).1 next

theorem hold_bind (t : Talk Command Response α) (f : α → Talk Command Response β) :
    hold db (t.bind f) = hold (hold db t).1 (f (hold db t).2) := by
  induction t generalizing db with
  | done a => rfl
  | ask q owed next ih => exact ih _
  | tell q next ih => exact ih

/-- Debts are of no account, since every question is answered. -/
theorem hold_owing (t : Talk Command Response α) (debts : List Command) :
    hold db (t.owing debts) = hold db t := by
  induction t generalizing db with
  | done a => rfl
  | ask q owed next ih => exact ih _
  | tell q next ih => exact ih

theorem run_eq_hold (t : Talk Command Response α) :
    t.run db = ((hold db t).1, .ok (hold db t).2) := by
  induction t generalizing db with
  | done a => rfl
  | ask q owed next ih => exact ih _
  | tell q next ih => exact ih

namespace Exchange

/-- What becomes of the database by an exchange, and what the exchange comes to. -/
def on (db : Database) (e : Exchange α) : Database × Except Fault α := hold db e.run

@[simp] theorem on_pure (a : α) : on db (pure a) = (db, .ok a) := rfl

@[simp] theorem on_require (c : Command) : on db (require c) = db.answer c := rfl

@[simp] theorem on_response (c : Command) :
    on db (response c) = ((db.answer c).1, .ok (db.answer c).2) := rfl

theorem on_bind (e : Exchange α) (f : α → Exchange β) :
    on db (e >>= f) = match on db e with
      | (db, .ok a) => on db (f a)
      | (db, .error fault) => (db, .error fault) := by
  unfold on
  refine (hold_bind e.run _).trans ?_
  rcases hold db e.run with ⟨db', fault | a⟩ <;> rfl

theorem on_bind_of_ok {e : Exchange α} {f : α → Exchange β} {db' : Database} {a : α}
    (h : on db e = (db', .ok a)) : on db (e >>= f) = on db' (f a) := by
  rw [on_bind, h]

theorem on_require_bind {c : Command} {f : Yield → Exchange β} {db' : Database} {y : Yield}
    (h : db.answer c = (db', .ok y)) : on db (require c >>= f) = on db' (f y) :=
  on_bind_of_ok h

theorem on_discard_require {c : Command} {db' : Database} {y : Yield}
    (h : db.answer c = (db', .ok y)) : on db (discard (require c)) = (db', .ok ()) :=
  on_require_bind (f := fun _ => pure ()) h

theorem hold_result {e : Exchange α} {db' : Database} {a : α} (h : on db e = (db', .ok a)) :
    hold db e.result = (db', .ok a) := by
  refine (hold_bind _ _).trans ?_
  unfold on at h
  rw [h]
  rfl

end Exchange

open Exchange

/-! ## Databases in order -/

/-- The database holds the rows given, and does what the dialect asks of it. -/
structure InOrder (d : Dialect) (db : Database) (rows : List Row) : Prop where
  table : db.table = some rows
  locks : d.locksRows = true → db.locksRows = true
  saved : db.saved = []
  opened : db.closed = false
  unique : (rows.map Row.name).Nodup

/-- The database with other rows. -/
def Database.holding (db : Database) (rows : List Row) : Database := { db with table := some rows }

/-- The database at the start of a transaction. -/
def Database.begun (db : Database) : Database := { db with saved := db.table :: db.saved }

theorem answer_start (hc : db.closed = false) :
    db.answer .start = (db.begun, .ok (.changed 0)) := by
  simp [Database.answer, Database.begun, hc]

theorem answer_commit (hc : db.closed = false) :
    db.answer .commit = ({ db with saved := db.saved.tail }, .ok (.changed 0)) := by
  simp [Database.answer, hc]

theorem answer_rollback (hc : db.closed = false) :
    db.answer .rollback = (db.back db.saved, .ok (.changed 0)) := by
  simp [Database.answer, hc]

theorem holding_self (h : db.table = some rows) : db.holding rows = db := by
  cases db
  cases h
  rfl

/-- A transaction that goes well is kept. -/
theorem on_transaction {body : Exchange α} {a : α} (hc : db.closed = false)
    (h : on db.begun body = (db.begun.holding rows, .ok a)) :
    on db (transaction body) = (db.holding rows, .ok a) := by
  refine (on_bind_of_ok (on_discard_require (answer_start hc))).trans ?_
  refine (hold_bind _ _).trans ?_
  rw [hold_owing]
  have hkept : hold db.begun
      (body >>= fun a => discard (require .commit) >>= fun _ => pure a : Exchange α).run =
      (db.holding rows, .ok a) :=
    (on_bind_of_ok h).trans (on_bind_of_ok (on_discard_require (answer_commit hc)))
  rw [hkept]
  rfl

/-! ## Statements -/

/-- The row of a new record. -/
def freshRow (reading : Int) (o : Options) : Row :=
  ⟨o.name, o.owner, leaseEnd reading o, reading, reading⟩

/-- The row after it was taken over. -/
def takenRow (reading : Int) (o : Options) (r : Row) : Row :=
  { r with owner := o.owner, expiredAt := leaseEnd reading o, updatedAt := reading }

/-- The row after its owner has moved its end. -/
def keptRow (reading : Int) (o : Options) (r : Row) : Row :=
  { r with expiredAt := leaseEnd reading o, updatedAt := reading }

/-- The rows with some of them changed. -/
def change (p : Row → Bool) (f : Row → Row) (rows : List Row) : List Row :=
  rows.map fun r => if p r then f r else r

/-- The record of the lock, if it has ended. -/
def ended (reading : Int) (o : Options) (r : Row) : Bool :=
  r.name = o.name ∧ r.expiredAt < reading

/-- The record of the lock, if it is the owner's. -/
def owned (o : Options) (r : Row) : Bool := r.name = o.name ∧ r.owner = o.owner

@[simp] theorem Value.text_beq_text (s t : String) :
    (Value.text s == .text t) = decide (s = t) := by
  rw [beq_eq_decide]
  simp

theorem answer_execute {s : Statement} {values : List Value} (ht : db.table = some rows)
    (hc : db.closed = false) (hs : s ≠ .createTable) :
    db.answer (.execute s values) = match Database.execute db.locksRows rows values s with
      | .ok (rows', yield) => (db.holding rows', .ok yield)
      | .error fault => (db, .error fault) := by
  obtain ⟨table, locksRows, saved, closed⟩ := db
  cases ht
  cases hc
  cases s with
  | createTable => exact absurd rfl hs
  | insert | select | update | delete => rfl

/-- An update that fits the columns changes the rows that meet its conditions. -/
theorem execute_update {columns : List Column} {conditions : List Condition} {values : List Value}
    {f : Row → Row} (hf : ∀ r, Row.setAll r (columns.zip values) = some (f r)) (locks : Bool) :
    Database.execute locks rows values (.update columns conditions) =
      let p (r : Row) : Bool := r.meetsAll conditions (values.drop columns.length)
      .ok (change p f rows, .changed (rows.countP p)) := by
  have hwrite : rows.mapM (fun r => if r.meetsAll conditions (values.drop columns.length) then
      r.setAll (columns.zip values) else some r) =
      some (change (·.meetsAll conditions (values.drop columns.length)) f rows) := by
    have h : ∀ r : Row, (if r.meetsAll conditions (values.drop columns.length) then
        r.setAll (columns.zip values) else some r) =
        pure (if r.meetsAll conditions (values.drop columns.length) then f r else r) := by
      intro r
      split
      · exact hf r
      · rfl
    simp only [h]
    exact List.mapM_pure
  simp only [Database.execute, Database.update, hwrite]

theorem answer_insertRow (ht : db.table = some rows) (hc : db.closed = false) (reading : Int)
    (o : Options) :
    db.answer (.execute .insertRow
      [.text o.name, .text o.owner, .time (leaseEnd reading o), .time reading, .time reading]) =
    match Database.row? rows o.name with
      | none => (db.holding (rows ++ [freshRow reading o]), .ok (.changed 1))
      | some _ => (db, .error .duplicate) := by
  rw [answer_execute ht hc (by simp [Statement.insertRow])]
  have hexec : Database.execute db.locksRows rows
      [.text o.name, .text o.owner, .time (leaseEnd reading o), .time reading, .time reading]
      .insertRow =
      if (Database.row? rows o.name).isSome then .error .duplicate
      else .ok (rows ++ [freshRow reading o], .changed 1) := rfl
  rw [hexec]
  cases Database.row? rows o.name <;> rfl

theorem answer_readRow (ht : db.table = some rows) (hc : db.closed = false)
    (hl : d.locksRows = true → db.locksRows = true) (o : Options) :
    db.answer (.execute (.readRow d) [.text o.name]) =
      (db, .ok (.rows ((rows.filter (·.name = o.name)).map fun r =>
        [.text r.owner, .time r.expiredAt]))) := by
  have hrefused : (d.locksRows && !db.locksRows) = false := by
    cases h : d.locksRows with
    | false => rfl
    | true => simp [hl h]
  have hmeets : ∀ r : Row,
      r.meetsAll [⟨.name, .equal⟩] [.text o.name] = decide (r.name = o.name) := by
    intro r
    simp [Row.meetsAll, Row.meets, Row.get]
  rw [answer_execute ht hc (by simp [Statement.readRow])]
  simp only [Database.execute, Statement.readRow, hrefused, hmeets, Bool.false_eq_true, if_false,
    holding_self ht]
  rfl

theorem answer_stealRow (ht : db.table = some rows) (hc : db.closed = false) (reading : Int)
    (o : Options) :
    db.answer (.execute .stealRow
      [.text o.owner, .time (leaseEnd reading o), .time reading, .text o.name, .time reading]) =
    (db.holding (change (ended reading o) (takenRow reading o) rows),
      .ok (.changed (rows.countP (ended reading o)))) := by
  rw [answer_execute ht hc (by simp [Statement.stealRow]), Statement.stealRow,
    execute_update (f := takenRow reading o) fun r => rfl]
  have hp : (fun r : Row => r.meetsAll [⟨.name, .equal⟩, ⟨.expiredAt, .below⟩]
      [.text o.name, .time reading]) = ended reading o := by
    funext r
    simp [Row.meetsAll, Row.meets, Row.get, ended]
  simp only [List.length_cons, List.length_nil, List.drop_succ_cons, List.drop_zero, hp]

theorem answer_refreshRow (ht : db.table = some rows) (hc : db.closed = false) (reading : Int)
    (o : Options) :
    db.answer (.execute .refreshRow
      [.time (leaseEnd reading o), .time reading, .text o.name, .text o.owner]) =
    (db.holding (change (owned o) (keptRow reading o) rows),
      .ok (.changed (rows.countP (owned o)))) := by
  rw [answer_execute ht hc (by simp [Statement.refreshRow]), Statement.refreshRow,
    execute_update (f := keptRow reading o) fun r => rfl]
  have hp : (fun r : Row => r.meetsAll [⟨.name, .equal⟩, ⟨.owner, .equal⟩]
      [.text o.name, .text o.owner]) = owned o := by
    funext r
    simp [Row.meetsAll, Row.meets, Row.get, owned]
  simp only [List.length_cons, List.length_nil, List.drop_succ_cons, List.drop_zero, hp]

theorem answer_deleteRow (ht : db.table = some rows) (hc : db.closed = false) (o : Options) :
    db.answer (.execute .deleteRow [.text o.name, .text o.owner]) =
    (db.holding (rows.filter (!owned o ·)), .ok (.changed (rows.countP (owned o)))) := by
  have hp : (fun r : Row => r.meetsAll [⟨.name, .equal⟩, ⟨.owner, .equal⟩]
      [.text o.name, .text o.owner]) = owned o := by
    funext r
    simp [Row.meetsAll, Row.meets, Row.get, owned]
  rw [answer_execute ht hc (by simp [Statement.deleteRow]), Statement.deleteRow]
  simp only [Database.execute, congrFun hp]

/-! ## Operations -/

/-- What an attempt makes of the rows, and how it comes out. -/
def acquireRows (reading : Int) (o : Options) (rows : List Row) : List Row × Attempt :=
  match Database.row? rows o.name with
  | none => (rows ++ [freshRow reading o], .granted)
  | some r =>
    if reading ≤ r.expiredAt then (rows, .occupied (some r.owner))
    else (change (ended reading o) (takenRow reading o) rows, .granted)

/-- What an operation makes of the rows, and its answer. -/
def transact (reading : Int) (o : Options) (op : Op) (rows : List Row) : List Row × Answer :=
  match op with
  | .acquire => (acquireRows reading o rows).map id fun a => .acquire (.ok a)
  | .refresh => (change (owned o) (keptRow reading o) rows,
      .refresh (if rows.any (owned o) then .ok () else .error (.lost (.row o.name o.owner))))
  | .release => (rows.filter (!owned o ·), .release (.ok ()))

theorem on_addRow (ht : db.table = some rows) (hc : db.closed = false) (reading : Int)
    (o : Options) :
    on db (addRow reading o) = match Database.row? rows o.name with
      | none => (db.holding (rows ++ [freshRow reading o]), .ok true)
      | some _ => (db, .ok false) := by
  have ht' : db.begun.table = some rows := ht
  have hinsert := answer_insertRow ht' hc reading o
  refine (on_bind_of_ok (on_discard_require (answer_start hc))).trans ?_
  refine (on_bind_of_ok (on_response _)).trans ?_
  rw [hinsert]
  cases Database.row? rows o.name with
  | none => exact on_bind_of_ok (on_discard_require (answer_commit (by exact hc)))
  | some r => exact on_bind_of_ok (on_discard_require (answer_rollback (by exact hc)))

theorem on_findRow (ht : db.table = some rows) (hc : db.closed = false)
    (hl : d.locksRows = true → db.locksRows = true) (o : Options) :
    on db (findRow d o) =
      (db, .ok ((Database.row? rows o.name).map fun r => (r.owner, r.expiredAt))) := by
  refine (on_require_bind (answer_readRow ht hc hl o)).trans ?_
  have hrow : Database.row? rows o.name = (rows.filter (·.name = o.name)).head? :=
    List.head?_filter.symm
  rw [hrow]
  cases rows.filter (·.name = o.name) with
  | nil => rfl
  | cons r rs => rfl

theorem countP_le_one {p : Row → Bool} (hu : (rows.map Row.name).Nodup) (name : String)
    (hp : ∀ r, p r = true → r.name = name) : rows.countP p ≤ 1 := by
  calc rows.countP p ≤ rows.countP (fun r => r.name == name) :=
        List.countP_mono_left fun r _ h => by simp [hp r h]
    _ = (rows.map Row.name).count name := by
        rw [List.count, List.countP_map]
        rfl
    _ ≤ 1 := List.nodup_iff_count_le_one.1 hu name

/-- A record that has ended is taken over. -/
theorem on_takeOver {r : Row} (ht : db.table = some rows) (hc : db.closed = false)
    (hu : (rows.map Row.name).Nodup) (hr : Database.row? rows o.name = some r)
    (he : r.expiredAt < reading) :
    on db (takeOver reading o) =
      (db.holding (change (ended reading o) (takenRow reading o) rows), .ok true) := by
  have hone : rows.countP (ended reading o) = 1 := by
    refine Nat.le_antisymm (countP_le_one hu o.name fun r h => ?_) ?_
    · simp only [ended, decide_eq_true_eq] at h
      exact h.1
    · refine List.countP_pos_iff.2 ⟨r, List.mem_of_find?_eq_some hr, ?_⟩
      have hname : r.name = o.name := by simpa using List.find?_some hr
      simp [ended, hname, he]
  have hsteal := answer_stealRow ht hc reading o
  rw [hone] at hsteal
  exact on_require_bind hsteal

/-- **An attempt is one transaction.** -/
theorem hold_acquire (h : InOrder d db rows) :
    hold db (acquire d reading o) =
      (db.holding (acquireRows reading o rows).1, .ok (acquireRows reading o rows).2) := by
  refine hold_result (on_transaction h.opened ?_)
  have hu := h.unique
  have ht : db.begun.table = some rows := h.table
  have hc : db.begun.closed = false := h.opened
  have hadd := on_addRow ht hc reading o
  have hfind := on_findRow ht hc h.locks o
  unfold acquireRows
  cases hr : Database.row? rows o.name with
  | none =>
    rw [hr] at hadd
    exact on_bind_of_ok hadd
  | some r =>
    rw [hr] at hadd hfind
    refine (on_bind_of_ok hadd).trans ((on_bind_of_ok hfind).trans ?_)
    simp only [Option.map_some]
    split
    · rw [on_pure, holding_self ht]
    · refine (on_bind_of_ok (on_takeOver ht hc h.unique hr (by omega))).trans ?_
      rfl

theorem hold_refresh (ht : db.table = some rows) (hc : db.closed = false) :
    hold db (refresh reading o) = (db.holding (change (owned o) (keptRow reading o) rows),
      if rows.any (owned o) then .ok () else .error (.lost (.row o.name o.owner))) := by
  refine (hold_bind _ _).trans ?_
  rw [hold_result ((on_require _).trans (answer_refreshRow ht hc reading o))]
  cases hany : rows.any (owned o) with
  | false =>
    have hnone : rows.countP (owned o) = 0 :=
      List.countP_eq_zero.2 fun r hr h => by simp_all
    rw [hnone]
    rfl
  | true =>
    have hpos : 0 < rows.countP (owned o) := List.countP_pos_iff.2 (List.any_eq_true.1 hany)
    obtain ⟨n, hn⟩ := Nat.exists_eq_add_of_lt hpos
    rw [Nat.zero_add] at hn
    rw [hn]
    rfl

theorem hold_release (ht : db.table = some rows) (hc : db.closed = false) :
    hold db (release o) = (db.holding (rows.filter (!owned o ·)), .ok ()) := by
  refine (hold_bind _ _).trans ?_
  rw [hold_result ((on_require _).trans (answer_deleteRow ht hc o))]
  rfl

/-- **Every operation is one transaction**, which does to the rows what `transact` says. -/
theorem run_adapter (h : InOrder d db rows) (clock : Nat → Int) (e : Errand Empty) (op : Op) :
    (adapter d clock e op).run db =
      (db.holding (transact (clock e.calls) e.options op rows).1,
        .ok (none, (transact (clock e.calls) e.options op rows).2)) := by
  have hheld : hold db (adapter d clock e op) =
      (db.holding (transact (clock e.calls) e.options op rows).1,
        none, (transact (clock e.calls) e.options op rows).2) := by
    cases op with
    | acquire =>
      refine (hold_bind _ _).trans ?_
      rw [hold_acquire h]
      rfl
    | refresh =>
      refine (hold_bind _ _).trans ?_
      rw [hold_refresh h.table h.opened]
      rfl
    | release =>
      refine (hold_bind _ _).trans ?_
      rw [hold_release h.table h.opened]
      rfl
  rw [run_eq_hold, hheld]

end LeaseLock.Sql
