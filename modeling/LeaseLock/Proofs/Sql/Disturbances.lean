import LeaseLock.Proofs.Remote.Courses
import LeaseLock.Proofs.Sql.Rows
import Mathlib.Data.Option.Basic

/-!
# Disturbed databases

**Disturbances** (`Disturbed`). Before each command of ours other clients carry out operations, and
the command may be answered with a fault, whether it was carried out or not. What always goes well
is that a transaction is undone when it is dropped. The database keeps in mind what the others alone
have made of the table (`alone`, `alone_run`), and what was answered.

**Tables but for one row** (`Agree`). What becomes of a record hangs on nothing but this record
(`row?_transact`). So others may have their turn on two tables that agree but for the row of one
name, and these still agree (`Agree.visited`).

**Transactions left open** (`Open`, `Within`). Within transactions, every table to go back to is the
one that the others alone have made, so whatever ends them before they are kept leaves it to them.
Until then the table differs from that one in the row of our name at most, and no command has
failed.
-/

namespace LeaseLock.Sql

variable {α : Type} {db : Database} {rows rows' : List Row} {name : String} {o : Options}

/-! ## Tables but for one row -/

/-- The rows but that of one name are the same. -/
structure Apart (name : String) (rows rows' : List Row) : Prop where
  unique : (rows.map Row.name).Nodup
  unique' : (rows'.map Row.name).Nodup
  same : ∀ n, n ≠ name → Database.row? rows n = Database.row? rows' n

/-- If there are tables, no name comes twice, and the rows but that of one name are the same. -/
abbrev Agree (name : String) (table table' : Option (List Row)) : Prop :=
  Option.Rel (Apart name) table table'

/-- No name comes twice in the table. -/
def UniqueNames (table : Option (List Row)) : Prop := ∀ rows ∈ table, (rows.map Row.name).Nodup

theorem Agree.refl {table : Option (List Row)} (h : UniqueNames table) (name : String) :
    Agree name table table := by
  cases table with
  | none => exact .none
  | some rows => exact .some ⟨h rows rfl, h rows rfl, fun _ _ => rfl⟩

/-- What becomes of the record of an operation's name. -/
def rowAfter (reading : Int) (o : Options) : Op → Option Row → Option Row
  | .acquire, none => some (freshRow reading o)
  | .acquire, some r => some (if reading ≤ r.expiredAt then r else takenRow reading o r)
  | .refresh, row => row.map fun r => if r.owner = o.owner then keptRow reading o r else r
  | .release, row => row.filter fun r => r.owner ≠ o.owner

/-- **What becomes of a record hangs on nothing but this record.** -/
theorem row?_transact (hu : (rows.map Row.name).Nodup) (reading : Int) (o : Options) (op : Op) :
    Database.row? (transact reading o op rows).1 o.name =
      rowAfter reading o op (Database.row? rows o.name) := by
  cases op with
  | acquire =>
    show Database.row? (acquireRows reading o rows).1 o.name = _
    rcases acquireRows_cases reading o rows with
      ⟨hr, -, ha⟩ | ⟨r, hr, hle, ha⟩ | ⟨r, hr, hlt, -, ha⟩
    · rw [ha, hr, rowAfter]
    · rw [ha, hr, rowAfter, if_pos hle]
    · rw [ha, hr, rowAfter, if_neg (Int.not_le.2 hlt)]
  | refresh =>
    rcases refresh_cases hu reading o with ⟨r, hr, ho, -, ha⟩ | ⟨hne, ha⟩
    · rw [ha, hr, rowAfter, Option.map_some, if_pos ho]
    · rw [ha, rowAfter]
      cases hr : Database.row? rows o.name with
      | none => rfl
      | some r => rw [Option.map_some, if_neg (hne r hr)]
  | release =>
    rcases release_cases hu reading o with ⟨r, hr, ho, ha⟩ | ⟨hne, ha⟩
    · rw [ha, hr, rowAfter, Option.filter_some, if_neg (by simp [ho])]
    · rw [ha, rowAfter]
      cases hr : Database.row? rows o.name with
      | none => rfl
      | some r => rw [Option.filter_some, if_pos (by simp [hne r hr])]

theorem apart_transact (hu : (rows.map Row.name).Nodup) (reading : Int) (o : Options) (op : Op) :
    Apart o.name (transact reading o op rows).1 rows :=
  ⟨unique_transact hu _ _ _, hu, fun _ hn => row?_transact_of_ne hn _ _⟩

theorem Agree.of_apart {table : Option (List Row)} (h : Agree name (some rows) table)
    (ha : Apart name rows' rows) : Agree name (some rows') table := by
  cases h with
  | some h =>
    exact .some ⟨ha.unique, h.unique', fun n hn => (ha.same n hn).trans (h.same n hn)⟩

/-! ## Other clients -/

/-- An operation of another client. -/
structure Visit where
  reading : Int
  options : Options
  op : Op

/-- What the operation makes of the table. -/
def Visit.on (table : Option (List Row)) (v : Visit) : Option (List Row) :=
  table.map fun rows => (transact v.reading v.options v.op rows).1

/-- What the operations make of the table, one after the other. -/
def visited (visits : List Visit) (table : Option (List Row)) : Option (List Row) :=
  visits.foldl Visit.on table

theorem UniqueNames.visited {table : Option (List Row)} (h : UniqueNames table)
    (visits : List Visit) : UniqueNames (visited visits table) := by
  induction visits generalizing table with
  | nil => exact h
  | cons v visits ih =>
    refine ih ?_
    rintro _ hm
    obtain ⟨rows, hrows, rfl⟩ := Option.mem_map.1 hm
    exact unique_transact (h rows hrows) _ _ _

/-- Tables that agree but for one row still do after others have had their turn. -/
theorem Agree.visited {table table' : Option (List Row)} (h : Agree name table table')
    (visits : List Visit) : Agree name (visited visits table) (visited visits table') := by
  induction visits generalizing table table' with
  | nil => exact h
  | cons v visits ih =>
    refine ih ?_
    cases h with
    | none => exact .none
    | some ha =>
      refine .some ⟨unique_transact ha.unique _ _ _, unique_transact ha.unique' _ _ _,
        fun n hn => ?_⟩
      by_cases hv : n = v.options.name
      · subst hv
        rw [row?_transact ha.unique, row?_transact ha.unique', ha.same _ hn]
      · rw [row?_transact_of_ne hv, row?_transact_of_ne hv, ha.same n hn]

/-! ## The disturbed database -/

/-- How a command goes wrong. -/
structure Mishap where
  fault : Fault
  /-- The command is carried out all the same. -/
  carriedOut : Bool

/-- What comes before a command, and what happens to the command. Operations that have to wait for
our transaction come after it. -/
structure Disturbance where
  visits : List Visit := []
  mishap : Option Mishap := none

/-- A command that was answered. -/
structure Entry where
  /-- How many transactions it was within. -/
  depth : Nat
  command : Command
  response : Response

/-- The command fails before the transaction is kept as a whole. An insert that is told of a row of
its name has not failed: this is how an attempt finds out that there is a row. -/
def Entry.Fails (x : Entry) : Prop :=
  ∃ fault, x.response = .error fault ∧ ¬(x.command = .commit ∧ x.depth = 1) ∧
    ∀ values, x.command = .execute .insertRow values → fault ≠ .duplicate

/-- A database that is disturbed while our commands are answered. -/
structure Disturbed where
  database : Database
  /-- What the table is without our commands. -/
  alone : Option (List Row)
  /-- The disturbances to come, one for each command. -/
  script : List Disturbance := []
  /-- The commands that were answered, latest first. -/
  log : List Entry := []

namespace Disturbed

/-- A database, and what is going to disturb it. -/
def of (db : Database) (script : List Disturbance) : Disturbed := ⟨db, db.table, script, []⟩

/-- The database after others have had their turn. -/
def lets (w : Disturbed) (visits : List Visit) : Disturbed :=
  { w with
    database := { w.database with
      table := visited visits w.database.table
      saved := w.database.saved.map (visited visits) }
    alone := visited visits w.alone }

/-- The database after a command. -/
def noted (w : Disturbed) (c : Command) (db : Database) (r : Response) : Disturbed :=
  { w with
    database := db
    script := w.script.tail
    log := ⟨w.database.saved.length, c, r⟩ :: w.log }

/-- Carries a command out and answers it, unless there is a mishap. A dropped transaction is always
undone. -/
def heed (w : Disturbed) (mishap : Option Mishap) (c : Command) : Disturbed × Response :=
  let (done, response) := w.database.answer c
  match mishap with
  | none => (w.noted c done response, response)
  | some m =>
    if c = .abandon then (w.noted c done response, response)
    else (w.noted c (if m.carriedOut then done else w.database) (.error m.fault), .error m.fault)

/-- Answers a command, once others have had their turn. -/
def answer (w : Disturbed) (c : Command) : Disturbed × Response :=
  let next := w.script.headD {}
  (w.lets next.visits).heed next.mishap c

instance : Server Disturbed Command Response where
  answer w c := (w.answer c).map id some

variable {w : Disturbed} {k : Nat} {c : Command}

/-- A command is carried out and goes well, or it is answered with a fault. -/
theorem heed_cases (w : Disturbed) (mishap : Option Mishap) (hc : c ≠ .abandon) :
    (∃ y, (w.database.answer c).2 = .ok y ∧
      w.heed mishap c = (w.noted c (w.database.answer c).1 (.ok y), .ok y)) ∨
    ∃ fault db, (db = w.database ∨ db = (w.database.answer c).1) ∧
      w.heed mishap c = (w.noted c db (.error fault), .error fault) := by
  unfold heed
  cases mishap with
  | none =>
    cases hr : (w.database.answer c).2 with
    | ok y => exact .inl ⟨y, rfl, by simp only [hr]⟩
    | error fault => exact .inr ⟨fault, _, .inr rfl, by simp only [hr]⟩
  | some m =>
    refine .inr ⟨m.fault, if m.carriedOut then (w.database.answer c).1 else w.database, ?_, ?_⟩
    · split
      · exact .inr rfl
      · exact .inl rfl
    · simp only [if_neg hc]

theorem heed_abandon (w : Disturbed) (mishap : Option Mishap) :
    (w.heed mishap .abandon).1 =
      w.noted .abandon (w.database.answer .abandon).1 (w.database.answer .abandon).2 := by
  cases mishap <;> rfl

/-! ## What the others alone make of the table -/

theorem heed_eq (w : Disturbed) (mishap : Option Mishap) (c : Command) :
    ∃ db, (w.heed mishap c).1 = w.noted c db (w.heed mishap c).2 := by
  unfold heed
  cases mishap with
  | none => exact ⟨_, rfl⟩
  | some m =>
    dsimp only
    split <;> exact ⟨_, rfl⟩

/-- Another command, and another turn of the others. -/
theorem after_answer {w' : Disturbed} {n : Nat}
    (hn : w'.log.length = (w.answer c).1.log.length + n)
    (ha : w'.alone =
      visited (((w.answer c).1.script.take n).flatMap Disturbance.visits) (w.answer c).1.alone) :
    ∃ n, w'.log.length = w.log.length + n ∧
      w'.alone = visited ((w.script.take n).flatMap Disturbance.visits) w.alone := by
  obtain ⟨db, h⟩ := heed_eq (w.lets (w.script.headD {}).visits) (w.script.headD {}).mishap c
  have halone : (w.answer c).1.alone = visited (w.script.headD {}).visits w.alone :=
    congrArg alone h
  have hscript : (w.answer c).1.script = w.script.tail := congrArg script h
  have hlog : (w.answer c).1.log.length = w.log.length + 1 := congrArg (·.log.length) h
  refine ⟨n + 1, by omega, ha.trans ?_⟩
  rw [halone, hscript]
  cases w.script with
  | nil =>
    rw [List.tail_nil, List.take_nil, List.take_nil]
    rfl
  | cons next script =>
    show visited _ (visited next.visits w.alone) = visited (next.visits ++ _) w.alone
    rw [visited, visited, visited, List.foldl_append]
    rfl

/-- **What the others alone make of the table** while a talk is held: as many have had their turn as
commands were answered. -/
theorem alone_run (t : Talk Command Response α) (w : Disturbed) :
    ∃ n, (t.run w).1.log.length = w.log.length + n ∧
      (t.run w).1.alone = visited ((w.script.take n).flatMap Disturbance.visits) w.alone := by
  induction t generalizing w with
  | done a => exact ⟨0, rfl, rfl⟩
  | ask c owed next ih =>
    obtain ⟨n, hn, ha⟩ := ih (w.answer c).2 (w.answer c).1
    exact after_answer hn ha
  | tell c next ih =>
    obtain ⟨n, hn, ha⟩ := ih (w.answer c).1
    exact after_answer hn ha

/-! ## Transactions left open -/

/-- Within a number of transactions, all to be undone to what the others alone have made. -/
structure Open (k : Nat) (w : Disturbed) : Prop where
  saved : w.database.saved = List.replicate k w.alone
  opened : w.database.closed = false
  unique : UniqueNames w.alone

/-- No command has failed. -/
def Quiet (w : Disturbed) : Prop := ∀ x ∈ w.log, ¬x.Fails

/-- The table is as the others alone have made it. -/
def Spared (w : Disturbed) : Prop := w.database.table = w.alone

/-- Within a number of transactions, no command has failed, and the table is as the others alone
have made it but for the row of a name. -/
structure Within (name : String) (k : Nat) (w : Disturbed) : Prop extends Open k w where
  agree : Agree name w.database.table w.alone
  quiet : w.Quiet

/-- What ends all transactions now leaves the table to the others. -/
def Undoable (w : Disturbed) : Prop := ∃ k, w.Open (k + 1)

/-- A number of transactions as a command leaves it. -/
def depthAfter (k : Nat) : Command → Nat
  | .start => k + 1
  | .commit | .rollback => k - 1
  | .abandon => 0
  | .execute _ _ => k

theorem answer_execute_kept (db : Database) (s : Statement) (values : List Value) :
    (db.answer (.execute s values)).1.saved = db.saved ∧
      (db.answer (.execute s values)).1.closed = db.closed := by
  unfold Database.answer
  split
  · exact ⟨rfl, rfl⟩
  · cases s with
    | createTable => exact ⟨rfl, rfl⟩
    | insert | select | update | delete =>
      dsimp only
      split
      · exact ⟨rfl, rfl⟩
      · split <;> exact ⟨rfl, rfl⟩

theorem saved_answer {table : Option (List Row)} (hs : db.saved = List.replicate k table)
    (hc : db.closed = false) {c : Command} (hstart : c = .start → db.table = table) :
    (db.answer c).1.saved = List.replicate (depthAfter k c) table ∧
      (db.answer c).1.closed = false := by
  cases c with
  | start =>
    rw [answer_start hc]
    refine ⟨?_, hc⟩
    show db.table :: db.saved = table :: List.replicate k table
    rw [hstart rfl, hs]
  | commit =>
    rw [answer_commit hc]
    exact ⟨by rw [hs]; exact List.tail_replicate, hc⟩
  | rollback =>
    rw [answer_rollback hc, hs]
    cases k with
    | zero => exact ⟨hs, hc⟩
    | succ k => exact ⟨rfl, hc⟩
  | abandon =>
    have ha : db.answer .abandon = (db.back db.saved.getLast?.toList, .ok (.changed 0)) := by
      simp [Database.answer, hc]
    rw [ha, hs]
    cases k with
    | zero => exact ⟨hs, hc⟩
    | succ k =>
      rw [List.getLast?_replicate, if_neg k.succ_ne_zero]
      exact ⟨rfl, hc⟩
  | execute s values =>
    have hkept := answer_execute_kept db s values
    exact ⟨hkept.1.trans hs, hkept.2.trans hc⟩

theorem Open.lets (h : w.Open k) (visits : List Visit) : (w.lets visits).Open k where
  saved := by
    show w.database.saved.map (visited visits) = List.replicate k (visited visits w.alone)
    rw [h.saved, List.map_replicate]
  opened := h.opened
  unique := h.unique.visited visits

theorem Spared.lets (h : w.Spared) (visits : List Visit) : (w.lets visits).Spared :=
  congrArg (visited visits) h

theorem Within.lets (h : w.Within name k) (visits : List Visit) :
    (w.lets visits).Within name k where
  toOpen := h.toOpen.lets visits
  agree := h.agree.visited visits
  quiet := h.quiet

theorem Open.carriedOut (h : w.Open k) (c : Command) (hstart : c = .start → w.Spared)
    (r : Response) :
    (w.noted c (w.database.answer c).1 r).Open (depthAfter k c) :=
  have hkept := saved_answer h.saved h.opened hstart
  ⟨hkept.1, hkept.2, h.unique⟩

theorem Open.undoable {fault : Fault} (h : w.Open (k + 1)) (hstart : c = .start → w.Spared)
    (hc : 0 < depthAfter (k + 1) c) (hdb : db = w.database ∨ db = (w.database.answer c).1) :
    (w.noted c db (.error fault)).Undoable := by
  rcases hdb with rfl | rfl
  · exact ⟨k, h.saved, h.opened, h.unique⟩
  · refine ⟨depthAfter (k + 1) c - 1, ?_⟩
    rw [Nat.sub_add_cancel hc]
    exact h.carriedOut c hstart _

theorem Quiet.ok (h : w.Quiet) (c : Command) (db : Database) (y : Yield) :
    (w.noted c db (.ok y)).Quiet := by
  refine List.forall_mem_cons.2 ⟨?_, h⟩
  rintro ⟨_, hr, -⟩
  cases hr

theorem Within.carriedOut {y : Yield} (h : w.Within name k) (c : Command)
    (hstart : c = .start → w.Spared) (ha : Agree name (w.database.answer c).1.table w.alone) :
    (w.noted c (w.database.answer c).1 (.ok y)).Within name (depthAfter k c) where
  toOpen := h.toOpen.carriedOut c hstart _
  agree := ha
  quiet := h.quiet.ok _ _ _

end Disturbed

end LeaseLock.Sql
