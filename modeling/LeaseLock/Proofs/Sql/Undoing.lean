import LeaseLock.Proofs.Sql.Disturbances

/-!
# Operations on a disturbed database

**Statements.** Each statement of an operation touches the row of its own name at most
(`agree_execute`). One that hits no row changes nothing.

**Exchanges** (`Exchange.Comes`). What an exchange with a disturbed database comes to, and how the
database is left where the exchange ends early. The rules follow the exchange: a bound exchange goes
through its parts, and a command comes to what is so when the others have had their turn.

**An attempt** (`Idle.ensures_acquire`). Its steps keep the invariant of an open transaction. Only
two of them, the insert and the taking over, touch the table at all, and they end with the lock
granted; a fault before the transaction is kept ends all by undoing it.

**A refresh and a release** are single statements (`Idle.ensures_refresh`, `Idle.ensures_release`).
-/

namespace LeaseLock.Sql

open Exchange

variable {α β : Type} {d : Dialect} {db : Database} {name : String} {reading : Int} {o : Options}

/-! ## Statements of the operations -/

theorem execute_cases {s : Statement} (db : Database) (values : List Value)
    (hs : s ≠ .createTable) :
    (db.closed = false ∧ ∃ rows, db.table = some rows) ∨
      ∃ fault, db.answer (.execute s values) = (db, .error fault) := by
  cases hc : db.closed with
  | true => exact .inr ⟨_, by rw [Database.answer, if_pos hc]⟩
  | false =>
    cases ht : db.table with
    | some rows => exact .inl ⟨rfl, rows, rfl⟩
    | none =>
      refine .inr ⟨.refused "no such table", ?_⟩
      rw [Database.answer, if_neg (by simp [hc])]
      cases s with
      | createTable => exact absurd rfl hs
      | insert | select | update | delete => simp only [ht]

theorem of_execute_ok {s : Statement} {values : List Value} {y : Yield}
    (h : (db.answer (.execute s values)).2 = .ok y) (hs : s ≠ .createTable) :
    db.closed = false ∧ ∃ rows, db.table = some rows := by
  rcases execute_cases db values hs with hdb | ⟨fault, hf⟩
  · exact hdb
  · rw [hf] at h
    cases h

theorem agree_execute {s : Statement} {values : List Value} {table : Option (List Row)}
    (h : Agree name db.table table) (hs : s ≠ .createTable)
    (hexec : ∀ rows, db.table = some rows → db.closed = false → (rows.map Row.name).Nodup →
      ∃ rows', (db.answer (.execute s values)).1.table = some rows' ∧ Apart name rows' rows) :
    Agree name (db.answer (.execute s values)).1.table table := by
  rcases execute_cases db values hs with ⟨hc, rows, ht⟩ | ⟨fault, hf⟩
  · rw [ht] at h
    obtain ⟨rows', ht', ha⟩ := hexec rows ht hc (by cases h with | some h => exact h.unique)
    rw [ht']
    exact h.of_apart ha
  · rwa [hf]

theorem agree_insertRow {table : Option (List Row)} (h : Agree o.name db.table table)
    (reading : Int) :
    Agree o.name (db.answer (.execute .insertRow [.text o.name, .text o.owner,
      .time (leaseEnd reading o), .time reading, .time reading])).1.table table := by
  refine agree_execute h (by simp [Statement.insertRow]) fun rows ht hc hu => ?_
  rw [answer_insertRow ht hc]
  have ha := apart_transact hu reading o .acquire
  cases hr : Database.row? rows o.name with
  | none =>
    simp only [transact, acquireRows, hr, Prod.map_fst, id_eq] at ha
    exact ⟨_, rfl, ha⟩
  | some r => exact ⟨rows, ht, hu, hu, fun _ _ => rfl⟩

theorem agree_stealRow {table : Option (List Row)} (h : Agree o.name db.table table)
    (reading : Int) :
    Agree o.name (db.answer (.execute .stealRow [.text o.owner, .time (leaseEnd reading o),
      .time reading, .text o.name, .time reading])).1.table table := by
  refine agree_execute h (by simp [Statement.stealRow]) fun rows ht hc hu => ?_
  rw [answer_stealRow ht hc]
  refine ⟨_, rfl, ?_, hu, fun n hn => row?_change_of_ne (fun _ => rfl) fun r hr => ?_⟩
  · rwa [map_name_change (f := takenRow reading o) fun _ => rfl]
  · simp only [ended, decide_eq_true_eq] at hr
    exact fun h => hn (h.symm.trans hr.1)

theorem agree_refreshRow {table : Option (List Row)} (h : Agree o.name db.table table)
    (reading : Int) :
    Agree o.name (db.answer (.execute .refreshRow
      [.time (leaseEnd reading o), .time reading, .text o.name, .text o.owner])).1.table table := by
  refine agree_execute h (by simp [Statement.refreshRow]) fun rows ht hc hu => ?_
  rw [answer_refreshRow ht hc]
  exact ⟨_, rfl, apart_transact hu reading o .refresh⟩

theorem agree_deleteRow {table : Option (List Row)} (h : Agree o.name db.table table) :
    Agree o.name (db.answer (.execute .deleteRow [.text o.name, .text o.owner])).1.table
      table := by
  refine agree_execute h (by simp [Statement.deleteRow]) fun rows ht hc hu => ?_
  rw [answer_deleteRow ht hc]
  exact ⟨_, rfl, apart_transact hu 0 o .release⟩

theorem answer_readRow_fst (db : Database) (d : Dialect) (values : List Value) :
    (db.answer (.execute (.readRow d) values)).1 = db := by
  have hs : Statement.readRow d ≠ .createTable := by simp [Statement.readRow]
  rcases execute_cases db values hs with ⟨hc, rows, ht⟩ | ⟨fault, hf⟩
  · rw [answer_execute ht hc hs]
    simp only [Database.execute, Statement.readRow]
    split
    next heq =>
      split at heq <;> cases heq
      exact holding_self ht
    · rfl
  · rw [hf]

/-- A taking over that does not hit one row hits none. -/
theorem table_stealRow {y : Yield} (hu : UniqueNames db.table)
    (h : (db.answer (.execute .stealRow [.text o.owner, .time (leaseEnd reading o),
      .time reading, .text o.name, .time reading])).2 = .ok y) (hy : y ≠ .changed 1) :
    (db.answer (.execute .stealRow [.text o.owner, .time (leaseEnd reading o),
      .time reading, .text o.name, .time reading])).1.table = db.table := by
  obtain ⟨hc, rows, ht⟩ := of_execute_ok h (by simp [Statement.stealRow])
  rw [answer_stealRow ht hc] at h ⊢
  cases h
  have hle : rows.countP (ended reading o) ≤ 1 := by
    refine countP_le_one (hu rows ht) o.name fun r hr => ?_
    simp only [ended, decide_eq_true_eq] at hr
    exact hr.1
  have hzero : rows.countP (ended reading o) = 0 := by
    have hne : rows.countP (ended reading o) ≠ 1 := fun h => hy (by rw [h])
    omega
  have hnone : ∀ r ∈ rows, ended reading o r = false := by
    simpa using List.countP_eq_zero.1 hzero
  rw [change_of_forall_false hnone, holding_self ht]

theorem table_refreshRow (h : (db.answer (.execute .refreshRow
      [.time (leaseEnd reading o), .time reading, .text o.name, .text o.owner])).2 =
        .ok (.changed 0)) :
    (db.answer (.execute .refreshRow
      [.time (leaseEnd reading o), .time reading, .text o.name, .text o.owner])).1.table =
        db.table := by
  obtain ⟨hc, rows, ht⟩ := of_execute_ok h (by simp [Statement.refreshRow])
  rw [answer_refreshRow ht hc] at h ⊢
  have hzero : rows.countP (owned o) = 0 := by
    simpa using h
  have hnone : ∀ r ∈ rows, owned o r = false := by
    simpa using List.countP_eq_zero.1 hzero
  rw [change_of_forall_false hnone, holding_self ht]

/-! ## Exchanges with a disturbed database -/

namespace Exchange

variable {w : Disturbed} {P : Disturbed → α → Prop} {E : Disturbed → Prop} {c : Command}

/-- The exchange comes to a result with the database as `P` says, or ends early with it as `E`
says. -/
def Comes (e : Exchange α) (w : Disturbed) (P : Disturbed → α → Prop) (E : Disturbed → Prop) :
    Prop :=
  e.run.Ensures w fun w r => match r with
    | .ok a => P w a
    | .error _ => E w

theorem comes_pure {a : α} (h : P w a) : (pure a : Exchange α).Comes w P E := Talk.ensures_done h

theorem comes_throw {fault : Fault} (h : E w) : (throw fault : Exchange α).Comes w P E :=
  Talk.ensures_done h

theorem Comes.bind {e : Exchange α} {f : α → Exchange β} {P' : Disturbed → β → Prop}
    (h : e.Comes w P E) (hf : ∀ w a, P w a → (f a).Comes w P' E) : (e >>= f).Comes w P' E :=
  Talk.Ensures.bind h fun w r hr => match r, hr with
    | .ok a, hr => hf w a hr
    | .error _, hr => Talk.ensures_done hr

theorem Comes.mono {e : Exchange α} {P' : Disturbed → α → Prop} {E' : Disturbed → Prop}
    (h : e.Comes w P E) (hP : ∀ w a, P w a → P' w a) (hE : ∀ w, E w → E' w) : e.Comes w P' E' :=
  Talk.Ensures.mono h fun w r hr => match r, hr with
    | .ok a, hr => hP w a hr
    | .error _, hr => hE w hr

theorem Comes.discard {e : Exchange α} {P : Disturbed → Prop} (h : e.Comes w (fun w _ => P w) E) :
    (Functor.discard e).Comes w (fun w _ => P w) E :=
  Comes.bind (f := fun _ => pure ()) h fun _ _ hP => comes_pure hP

/-- What is said to a command, by what is so when the others have had their turn. -/
theorem ensures_command {P : Disturbed → Response → Prop} {I : Disturbed → Prop}
    (hc : c ≠ .abandon) (hI : ∀ visits, I (w.lets visits))
    (hok : ∀ w y, I w → (w.database.answer c).2 = .ok y →
      P (w.noted c (w.database.answer c).1 (.ok y)) (.ok y))
    (herr : ∀ w fault db, I w → (db = w.database ∨ db = (w.database.answer c).1) →
      P (w.noted c db (.error fault)) (.error fault)) :
    (Talk.question c : Talk Command Response Response).Ensures w P := by
  refine Talk.ensures_question rfl ?_
  show P (w.answer c).1 (w.answer c).2
  unfold Disturbed.answer
  rcases Disturbed.heed_cases (w.lets (w.script.headD {}).visits) (w.script.headD {}).mishap hc with
    ⟨y, hy, h⟩ | ⟨fault, db, hdb, h⟩
  · rw [h]
    exact hok _ y (hI _) hy
  · rw [h]
    exact herr _ fault db (hI _) hdb

/-- What a command comes to whose fault is looked at. -/
theorem comes_response {P : Disturbed → Response → Prop} {I : Disturbed → Prop} (hc : c ≠ .abandon)
    (hI : ∀ visits, I (w.lets visits))
    (hok : ∀ w y, I w → (w.database.answer c).2 = .ok y →
      P (w.noted c (w.database.answer c).1 (.ok y)) (.ok y))
    (herr : ∀ w fault db, I w → (db = w.database ∨ db = (w.database.answer c).1) →
      P (w.noted c db (.error fault)) (.error fault)) :
    (response c).Comes w P E :=
  Talk.Ensures.bind (ensures_command hc hI hok herr) fun _ _ h => Talk.ensures_done h

/-- What a command comes to that has to succeed. -/
theorem comes_require {P : Disturbed → Yield → Prop} {I : Disturbed → Prop} (hc : c ≠ .abandon)
    (hI : ∀ visits, I (w.lets visits))
    (hok : ∀ w y, I w → (w.database.answer c).2 = .ok y →
      P (w.noted c (w.database.answer c).1 (.ok y)) y)
    (herr : ∀ w fault db, I w → (db = w.database ∨ db = (w.database.answer c).1) →
      E (w.noted c db (.error fault))) :
    (require c).Comes w P E :=
  ensures_command hc hI hok herr

theorem Comes.result {e : Exchange α} (h : e.Comes w P E) :
    e.result.Ensures w fun w r => match r with
      | .ok a => P w a
      | .error e => E w ∧ ∃ fault : Fault, e = fault.lockError :=
  Talk.Ensures.bind h fun _ r hr => match r, hr with
    | .ok _, hr => Talk.ensures_done hr
    | .error fault, hr => Talk.ensures_done ⟨hr, fault, rfl⟩

end Exchange

/-! ## The steps of an attempt -/

namespace Disturbed

variable {w : Disturbed} {k : Nat}

theorem Within.comes_start (h : w.Within name (k + 1)) (hs : w.Spared) :
    (discard (require .start)).Comes w (fun w _ => w.Within name (k + 2) ∧ w.Spared) Undoable := by
  refine Comes.discard (P := fun w => w.Within name (k + 2) ∧ w.Spared) ?_
  refine comes_require (I := fun w => w.Within name (k + 1) ∧ w.Spared) nofun
    (fun visits => ⟨h.lets visits, hs.lets visits⟩) ?_ ?_
  · rintro w y ⟨h, hs⟩ -
    have htable : (w.database.answer .start).1.table = w.database.table := by
      rw [answer_start h.opened]
      rfl
    exact ⟨h.carriedOut .start (fun _ => hs) (htable ▸ h.agree), htable.trans hs⟩
  · rintro w fault db ⟨h, hs⟩ hdb
    exact h.undoable (fun _ => hs) (Nat.succ_pos _) hdb

/-- The inner transaction is kept. -/
theorem Within.comes_commit (h : w.Within name 2) :
    (discard (require .commit)).Comes w (fun w _ => w.Within name 1) Undoable := by
  refine Comes.discard (P := fun w => w.Within name 1) ?_
  refine comes_require (I := fun w => w.Within name 2) nofun h.lets ?_ ?_
  · rintro w y h -
    refine h.carriedOut .commit nofun ?_
    rw [answer_commit h.opened]
    exact h.agree
  · rintro w fault db h hdb
    exact h.undoable nofun Nat.one_pos hdb

/-- The inner transaction is undone, whatever it has done. -/
theorem Open.comes_rollback (h : w.Open 2) (hq : w.Quiet) :
    (discard (require .rollback)).Comes w (fun w _ => w.Within name 1 ∧ w.Spared) Undoable := by
  refine Comes.discard (P := fun w => w.Within name 1 ∧ w.Spared) ?_
  refine comes_require (I := fun w => w.Open 2 ∧ w.Quiet) nofun (fun visits => ⟨h.lets visits, hq⟩)
    ?_ ?_
  · rintro w y ⟨h, hq⟩ -
    have htable : (w.database.answer .rollback).1.table = w.alone := by
      rw [answer_rollback h.opened, h.saved]
      rfl
    refine ⟨⟨h.carriedOut .rollback nofun _, ?_, hq.ok _ _ _⟩, htable⟩
    show Agree name (w.database.answer .rollback).1.table w.alone
    rw [htable]
    exact .refl h.unique name
  · rintro w fault db ⟨h, -⟩ hdb
    exact h.undoable nofun Nat.one_pos hdb

/-- What the insert leaves, by what is said to it. Even one that was carried out and answered
otherwise is within a transaction that is undone. -/
def Inserted (name : String) (w : Disturbed) : Response → Prop
  | .ok _ => w.Within name 2
  | .error .duplicate => w.Open 2 ∧ w.Quiet
  | .error (.refused _) => w.Undoable

theorem Within.comes_insert (h : w.Within o.name 2) (reading : Int) :
    (response (.execute .insertRow [.text o.name, .text o.owner, .time (leaseEnd reading o),
      .time reading, .time reading])).Comes w (Inserted o.name) Undoable := by
  refine comes_response (I := fun w => w.Within o.name 2) nofun h.lets ?_ ?_
  · rintro w y h -
    exact h.carriedOut (.execute _ _) nofun (agree_insertRow h.agree reading)
  · rintro w fault db h hdb
    cases fault with
    | refused reason => exact h.undoable nofun (Nat.succ_pos 1) hdb
    | duplicate =>
      refine ⟨?_, List.forall_mem_cons.2 ⟨?_, h.quiet⟩⟩
      · rcases hdb with rfl | rfl
        · exact ⟨h.saved, h.opened, h.unique⟩
        · exact h.toOpen.carriedOut (.execute _ _) nofun _
      · rintro ⟨fault, hr, -, hne⟩
        cases hr
        exact hne _ rfl rfl

/-- **The new row** is added, or there is one in the way and the table is left to the others. -/
theorem Within.comes_addRow (h : w.Within o.name 1) (hs : w.Spared) (reading : Int) :
    (addRow reading o).Comes w (fun w added => w.Within o.name 1 ∧ (added = false → w.Spared))
      Undoable := by
  refine (h.comes_start hs).bind fun w _ hw => ?_
  refine (hw.1.comes_insert reading).bind fun w r hr => ?_
  match r, hr with
  | .ok _, h => exact (h.comes_commit).bind fun w _ h => comes_pure ⟨h, nofun⟩
  | .error .duplicate, ⟨h, hq⟩ =>
    exact (h.comes_rollback hq).bind fun w _ h => comes_pure ⟨h.1, fun _ => h.2⟩
  | .error (.refused _), h => exact comes_throw h

/-- **Reading the row** leaves the table to the others. -/
theorem Within.comes_findRow (h : w.Within o.name 1) (hs : w.Spared) (d : Dialect) :
    (findRow d o).Comes w (fun w _ => w.Within o.name 1 ∧ w.Spared) Undoable := by
  have hread : (require (.execute (.readRow d) [.text o.name])).Comes w
      (fun w _ => w.Within o.name 1 ∧ w.Spared) Undoable := by
    refine comes_require (I := fun w => w.Within o.name 1 ∧ w.Spared) nofun
      (fun visits => ⟨h.lets visits, hs.lets visits⟩) ?_ ?_
    · rintro w y ⟨h, hs⟩ -
      rw [answer_readRow_fst]
      exact ⟨⟨⟨h.saved, h.opened, h.unique⟩, h.agree, h.quiet.ok _ _ _⟩, hs⟩
    · rintro w fault db ⟨h, -⟩ hdb
      exact h.undoable nofun Nat.one_pos hdb
  refine hread.bind fun w y h => ?_
  split
  · exact comes_pure h
  · exact comes_pure h
  · exact comes_throw ⟨0, h.1.toOpen⟩

/-- **The row is taken over**, or it is not there any more and the table is left to the others. -/
theorem Within.comes_takeOver (h : w.Within o.name 1) (hs : w.Spared) (reading : Int) :
    (takeOver reading o).Comes w (fun w taken => w.Within o.name 1 ∧ (taken = false → w.Spared))
      Undoable := by
  refine Comes.bind (P := fun w y => w.Within o.name 1 ∧ (y ≠ .changed 1 → w.Spared)) ?_
    fun w y h => comes_pure ⟨h.1, fun hy => h.2 (by simpa using hy)⟩
  refine comes_require (I := fun w => w.Within o.name 1 ∧ w.Spared) nofun
    (fun visits => ⟨h.lets visits, hs.lets visits⟩) ?_ ?_
  · rintro w y ⟨h, hs⟩ hy
    refine ⟨h.carriedOut (.execute _ _) nofun (agree_stealRow h.agree reading), fun hne => ?_⟩
    have hu : UniqueNames w.database.table := hs ▸ h.unique
    exact (table_stealRow hu hy hne).trans hs
  · rintro w fault db ⟨h, -⟩ hdb
    exact h.undoable nofun Nat.one_pos hdb

/-! ## Operations -/

/-- Before an operation: within no transaction, the table is as the others have made it, and no
command has failed. -/
structure Idle (w : Disturbed) : Prop where
  saved : w.database.saved = []
  spared : w.Spared
  unique : UniqueNames w.alone
  quiet : w.Quiet

theorem Idle.lets (h : w.Idle) (visits : List Visit) : (w.lets visits).Idle where
  saved := by
    show w.database.saved.map _ = []
    rw [h.saved, List.map_nil]
  spared := h.spared.lets visits
  unique := h.unique.visited visits
  quiet := h.quiet

theorem Idle.agree (h : w.Idle) (name : String) : Agree name w.database.table w.alone := by
  rw [h.spared]
  exact .refl h.unique name

theorem idle_of (hs : db.saved = []) (hu : UniqueNames db.table) (script : List Disturbance) :
    (of db script).Idle :=
  ⟨hs, rfl, hu, List.forall_mem_nil _⟩

/-- How a transaction ends that is not kept, or of which this is not known: the table is left to the
others, or no command has failed. -/
def Ended (name : String) (w : Disturbed) : Prop :=
  (w.Spared ∧ UniqueNames w.alone) ∨ w.Within name 0

theorem Idle.comes_start (h : w.Idle) (name : String) :
    (discard (require .start)).Comes w (fun w _ => w.Within name 1 ∧ w.Spared) (Ended name) := by
  refine Comes.discard (P := fun w => w.Within name 1 ∧ w.Spared) ?_
  have htable (db : Database) : (db.answer .start).1.table = db.table := by
    unfold Database.answer
    split <;> rfl
  refine comes_require (I := Idle) nofun h.lets ?_ ?_
  · intro w y h hy
    have hopened : w.database.closed = false := by
      cases hc : w.database.closed with
      | false => rfl
      | true =>
        rw [Database.answer, if_pos hc] at hy
        cases hy
    have hin : w.Within name 0 := ⟨⟨h.saved, hopened, h.unique⟩, h.agree name, h.quiet⟩
    refine ⟨hin.carriedOut .start (fun _ => h.spared) ?_, (htable _).trans h.spared⟩
    rw [htable]
    exact h.agree name
  · intro w fault db h hdb
    refine .inl ⟨?_, h.unique⟩
    rcases hdb with rfl | rfl
    · exact h.spared
    · exact (htable _).trans h.spared

/-- The whole transaction is kept, or is answered with a fault; then it may have been kept. -/
theorem Within.comes_keep {Q : Prop} (h : w.Within name 1) (hq : Q → w.Spared) :
    (discard (require .commit)).Comes w (fun w _ => w.Within name 0 ∧ (Q → w.Spared))
      (fun w => w.Undoable ∨ w.Within name 0) := by
  refine Comes.discard (P := fun w => w.Within name 0 ∧ (Q → w.Spared)) ?_
  have htable (w : Disturbed) (h : w.Within name 1) :
      (w.database.answer .commit).1.table = w.database.table := by
    rw [answer_commit h.opened]
  refine comes_require (I := fun w => w.Within name 1 ∧ (Q → w.Spared)) nofun
    (fun visits => ⟨h.lets visits, fun q => (hq q).lets visits⟩) ?_ ?_
  · rintro w y ⟨h, hq⟩ -
    exact ⟨h.carriedOut .commit nofun ((htable w h).symm ▸ h.agree),
      fun q => (htable w h).trans (hq q)⟩
  · rintro w fault db ⟨h, -⟩ (rfl | rfl)
    · exact .inl ⟨0, h.saved, h.opened, h.unique⟩
    · refine .inr ⟨h.toOpen.carriedOut .commit nofun _, (htable w h).symm ▸ h.agree,
        List.forall_mem_cons.2 ⟨?_, h.quiet⟩⟩
      rintro ⟨_, -, hne, -⟩
      refine hne ⟨rfl, ?_⟩
      show w.database.saved.length = 1
      rw [h.saved, List.length_replicate]

/-- **What is dropped is undone.** -/
theorem ended_abandon (h : w.Undoable ∨ w.Within name 0) : Ended name (w.answer .abandon).1 := by
  have hanswer (db : Database) (hc : db.closed = false) :
      db.answer .abandon = (db.back db.saved.getLast?.toList, .ok (.changed 0)) := by
    simp [Database.answer, hc]
  unfold answer
  rw [heed_abandon]
  rcases h with ⟨k, h⟩ | h
  · replace h := h.lets (w.script.headD {}).visits
    refine .inl ⟨?_, h.unique⟩
    show (Database.answer _ .abandon).1.table = _
    rw [hanswer _ h.opened, h.saved, List.getLast?_replicate, if_neg k.succ_ne_zero]
    rfl
  · replace h := h.lets (w.script.headD {}).visits
    refine .inr ?_
    have hdb : Database.answer (w.lets (w.script.headD {}).visits).database .abandon =
        ((w.lets (w.script.headD {}).visits).database, .ok (.changed 0)) := by
      rw [hanswer _ h.opened, h.saved]
      rfl
    rw [hdb]
    exact ⟨⟨h.saved, h.opened, h.unique⟩, h.agree, h.quiet.ok _ _ _⟩

/-- **A transaction** is kept, or ends with the table left to the others or no failed command. -/
theorem Idle.comes_transaction {body : Exchange α} {Q : α → Prop} (h : w.Idle) (name : String)
    (hbody : ∀ w : Disturbed, w.Within name 1 → w.Spared →
      body.Comes w (fun w a => w.Within name 1 ∧ (Q a → w.Spared)) Undoable) :
    (transaction body).Comes w (fun w a => w.Within name 0 ∧ (Q a → w.Spared)) (Ended name) := by
  refine (h.comes_start name).bind fun w _ ⟨hw, hs⟩ => ?_
  have hkept : (body >>= fun a => discard (require .commit) >>= fun _ => pure a : Exchange α).Comes
      w (fun w a => w.Within name 0 ∧ (Q a → w.Spared))
      (fun w => w.Undoable ∨ w.Within name 0) := by
    refine ((hbody w hw hs).mono (fun _ _ => id) fun _ => .inl).bind fun w a ⟨hw, hq⟩ => ?_
    exact (hw.comes_keep hq).bind fun w _ hw => comes_pure hw
  refine Talk.Ensures.bind (Talk.Ensures.owing hkept) fun w r hr => ?_
  match r, hr with
  | .ok a, hr => exact Talk.ensures_done hr
  | .error fault, hr => exact Talk.ensures_tell (Talk.ensures_done (ended_abandon hr))

/-- A command failed before the transaction was kept as a whole. -/
def Failed (w : Disturbed) : Prop := ∃ x ∈ w.log, x.Fails

theorem Quiet.not_failed (h : w.Quiet) : ¬w.Failed := fun ⟨x, hx, hf⟩ => h x hx hf

theorem Ended.agree (h : Ended name w) : Agree name w.database.table w.alone := by
  rcases h with ⟨hs, hu⟩ | hin
  · rw [hs]
    exact .refl hu name
  · exact hin.agree

theorem Ended.spared (h : Ended name w) (hf : w.Failed) : w.Spared := by
  rcases h with ⟨hs, -⟩ | hin
  · exact hs
  · exact absurd hf hin.quiet.not_failed

/-- **An attempt** touches no row of another name. One that meets a row, or in which a command
fails before the transaction is kept, leaves the table to the others; and the latter ends in an
error. -/
theorem Idle.ensures_acquire (h : w.Idle) (d : Dialect) (reading : Int) (o : Options) :
    (acquire d reading o).Ensures w fun w r =>
      Agree o.name w.database.table w.alone ∧
      (∀ owner, r = .ok (.occupied owner) → w.Spared) ∧
      (w.Failed → (∃ e, r = .error e) ∧ w.Spared) := by
  refine Talk.Ensures.mono (Comes.result (h.comes_transaction (Q := fun a => a ≠ Attempt.granted)
    o.name fun w hw hs => ?body)) fun w r hr => ?result
  case body =>
    refine (hw.comes_addRow hs reading).bind fun w added ⟨hw, hs⟩ => ?_
    cases added with
    | true => exact comes_pure ⟨hw, fun hne => absurd rfl hne⟩
    | false =>
      refine (hw.comes_findRow (hs rfl) d).bind fun w found ⟨hw, hs⟩ => ?_
      rcases found with _ | ⟨owner, ends⟩
      · exact comes_pure ⟨hw, fun _ => hs⟩
      · dsimp only
        split
        · exact comes_pure ⟨hw, fun _ => hs⟩
        · refine (hw.comes_takeOver hs reading).bind fun w taken ⟨hw, hs⟩ => ?_
          cases taken with
          | true => exact comes_pure ⟨hw, fun hne => absurd rfl hne⟩
          | false => exact comes_pure ⟨hw, fun _ => hs rfl⟩
  case result =>
    match r, hr with
    | .ok a, ⟨hw, hs⟩ =>
      refine ⟨hw.agree, fun owner ha => hs ?_, fun hf => absurd hf hw.quiet.not_failed⟩
      rintro rfl
      cases ha
    | .error e, ⟨hr, fault, he⟩ =>
      exact ⟨hr.agree, nofun, fun hf => ⟨⟨_, rfl⟩, hr.spared hf⟩⟩

theorem Idle.comes_execute {s : Statement} {values : List Value} (h : w.Idle) (name : String)
    (hagree : ∀ db table, Agree name db.table table →
      Agree name (Database.answer db (.execute s values)).1.table table) :
    (require (.execute s values)).Comes w
      (fun w y => Agree name w.database.table w.alone ∧ ∃ db,
        (Database.answer db (.execute s values)).2 = .ok y ∧ db.table = w.alone ∧
          w.database.table = (Database.answer db (.execute s values)).1.table)
      (fun w => Agree name w.database.table w.alone) := by
  refine comes_require (I := Idle) nofun h.lets ?_ ?_
  · intro w y h hy
    exact ⟨hagree _ _ (h.agree name), w.database, hy, h.spared, rfl⟩
  · rintro w fault db h (rfl | rfl)
    · exact h.agree name
    · exact hagree _ _ (h.agree name)

/-- **A refresh** touches no row of another name, and leaves the table to the others if its row is
lost. -/
theorem Idle.ensures_refresh (h : w.Idle) (reading : Int) (o : Options) :
    (refresh reading o).Ensures w fun w r =>
      Agree o.name w.database.table w.alone ∧
      ∀ loss, r = .error (.lost loss) → w.Spared := by
  have hexec := h.comes_execute o.name fun _ _ h => agree_refreshRow h reading
  refine Talk.Ensures.bind hexec.result fun w r hr => ?_
  split at hr
  next y =>
    obtain ⟨hagree, db, hy, ht, ht'⟩ := hr
    split
    next heq =>
      cases heq
      exact Talk.ensures_done ⟨hagree, fun _ _ => ht'.trans ((table_refreshRow hy).trans ht)⟩
    · exact Talk.ensures_done ⟨hagree, nofun⟩
    next heq => cases heq
  next e =>
    obtain ⟨hagree, fault, rfl⟩ := hr
    refine Talk.ensures_done ⟨hagree, fun loss hl => ?_⟩
    cases fault <;> cases hl

/-- **A release** touches no row of another name. -/
theorem Idle.ensures_release (h : w.Idle) (o : Options) :
    (release o).Ensures w fun w _ => Agree o.name w.database.table w.alone := by
  have hexec := h.comes_execute o.name fun _ _ h => agree_deleteRow h
  refine Talk.Ensures.bind hexec.result fun w r hr => ?_
  cases r with
  | ok y => exact Talk.ensures_done hr.1
  | error e => exact Talk.ensures_done hr.1

/-- How an operation leaves the table: the rows of other names to the others, and the whole table if
it finds the lock occupied or lost, or if it is an attempt in which a command failed. -/
structure Leaves (op : Op) (name : String) (w : Disturbed) (a : Answer) : Prop where
  agree : Agree name w.database.table w.alone
  occupied : ∀ owner, a = .acquire (.ok (.occupied owner)) → w.Spared
  failed : op = .acquire → w.Failed → (∃ e, a = .acquire (.error e)) ∧ w.Spared
  lost : ∀ loss, a = .refresh (.error (.lost loss)) → w.Spared

/-- **Every operation** comes to an answer, and leaves the table accordingly. -/
theorem Idle.ensures_adapter (h : w.Idle) (d : Dialect) (clock : Nat → Int) (e : Errand Empty)
    (op : Op) :
    (adapter d clock e op).Ensures w fun w r =>
      ∃ a, r = (none, a) ∧ Leaves op e.options.name w a := by
  cases op with
  | acquire =>
    refine (h.ensures_acquire d (clock e.calls) e.options).bind fun w r hr => ?_
    obtain ⟨hagree, hoccupied, hfailed⟩ := hr
    refine Talk.ensures_done ⟨_, rfl, hagree, ?_, fun _ hf => ?_, nofun⟩
    · rintro owner ⟨⟩
      exact hoccupied owner rfl
    · obtain ⟨⟨error, rfl⟩, hspared⟩ := hfailed hf
      exact ⟨⟨error, rfl⟩, hspared⟩
  | refresh =>
    refine (h.ensures_refresh (clock e.calls) e.options).bind fun w r ⟨hagree, hlost⟩ => ?_
    refine Talk.ensures_done ⟨_, rfl, hagree, nofun, nofun, ?_⟩
    rintro loss ⟨⟩
    exact hlost loss rfl
  | release =>
    exact (h.ensures_release e.options).bind fun w r hagree =>
      Talk.ensures_done ⟨_, rfl, hagree, nofun, nofun, nofun⟩

end Disturbed

end LeaseLock.Sql
