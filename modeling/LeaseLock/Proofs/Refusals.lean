import LeaseLock.Proofs.Memory.Records
import LeaseLock.Proofs.Sql.Undoing

/-!
# Refused operations change nothing

**Refusals.** An attempt that finds the lock occupied, and an operation that ends in an error.

**In memory** a refused operation leaves the store as it is (`Memory.Store.eq_of_refuses`).

**In a table** an operation takes several statements, other clients come in between, and any of the
statements may fail. There is nothing to compare the table with but what the others alone would have
made of it, from the table that was there at first (`Sql.Disturbed.alone`).

Main result: `refused_unchanged`.
-/

namespace LeaseLock

/-- The answer is that the lock is occupied, or an error. -/
def Answer.refuses : Answer → Bool
  | .acquire (.ok .granted) | .refresh (.ok ()) | .release (.ok ()) => false
  | _ => true

namespace Memory.Store

/-- **A refused operation leaves the store as it is.** -/
theorem eq_of_refuses {s : Store} {now : Instant} {o : Options} {op : Op}
    (h : (s.answer now o op).2.refuses = true) : (s.answer now o op).1 = s := by
  cases op with
  | acquire =>
    rcases acquire_cases s now o with ⟨ha, -⟩ | ⟨result, ha, -⟩ <;>
      simp only [answer, Prod.map, ha] at h ⊢
    · cases h
    · rfl
  | refresh =>
    rcases refresh_cases s now o with ⟨hr, -⟩ | ⟨e, hr⟩ <;>
      simp only [answer, Prod.map, hr] at h ⊢
    · cases h
    · rfl
  | release =>
    rcases release_eq_ok_or s o with hr | hr
    · simp only [answer, Prod.map, hr] at h
      cases h
    · exact hr

end Memory.Store

namespace Sql

variable {name n : String} {table table' : Option (List Row)}

theorem Agree.row? (h : Agree name table table') (hn : n ≠ name) :
    table.map (Database.row? · n) = table'.map (Database.row? · n) := by
  cases h with
  | none => rfl
  | some h => exact congrArg some (h.same n hn)

end Sql

/-- **Refused operations change nothing**, and no operation touches the record of another name.

In memory this is so of every call. In a table it is so of every operation on a database that is
within no transaction and holds no name twice, whatever else comes in and goes wrong: an attempt
that finds the lock occupied, an attempt in which a command fails before the transaction is kept,
and a refresh that finds its row lost leave the table as the others alone have made it. -/
theorem refused_unchanged :
    (∀ (s : Memory.Store) (now : Instant) (o : Options) (op : Op),
      ((s.answer now o op).2.refuses = true → (s.answer now o op).1 = s) ∧
      ∀ name, name ≠ o.name → (s.answer now o op).1.record? name = s.record? name) ∧
    ∀ (d : Sql.Dialect) (clock : Nat → Int) (e : Errand Empty) (op : Op) (db : Sql.Database)
      (script : List Sql.Disturbance), db.saved = [] → Sql.UniqueNames db.table →
      ∃ w a, (Sql.adapter d clock e op).run (Sql.Disturbed.of db script) = (w, .ok (none, a)) ∧
        w.alone = Sql.visited ((script.take w.log.length).flatMap Sql.Disturbance.visits) db.table ∧
        (∀ owner, a = .acquire (.ok (.occupied owner)) → w.database.table = w.alone) ∧
        (op = .acquire → (∃ x ∈ w.log, x.Fails) →
          (∃ error, a = .acquire (.error error)) ∧ w.database.table = w.alone) ∧
        (∀ loss, a = .refresh (.error (.lost loss)) → w.database.table = w.alone) ∧
        ∀ name, name ≠ e.options.name →
          w.database.table.map (Sql.Database.row? · name) =
            w.alone.map (Sql.Database.row? · name) := by
  refine ⟨fun s now o op => ⟨Memory.Store.eq_of_refuses, fun name hn =>
    Memory.Store.record?_answer_of_ne hn op⟩, fun d clock e op db script hs hu => ?_⟩
  obtain ⟨w, _, hrun, a, rfl, hleaves⟩ :=
    (Sql.Disturbed.idle_of hs hu script).ensures_adapter d clock e op
  obtain ⟨n, hn, halone⟩ :=
    Sql.Disturbed.alone_run (Sql.adapter d clock e op) (Sql.Disturbed.of db script)
  rw [hrun] at hn halone
  have hlength : w.log.length = n := hn.trans (Nat.zero_add n)
  rw [← hlength] at halone
  exact ⟨w, a, hrun, halone, hleaves.occupied, hleaves.failed, hleaves.lost,
    fun _ => hleaves.agree.row?⟩

/-- Options for the lock of a name. -/
def optionsFor (name owner : String) : Options := { name, owner }

/-- An owner's first call for the lock of the job. -/
def firstCall : Errand Empty := ⟨optionsFor "job" "b", optionsFor "job" "b", none, 0, 0⟩

/-- In memory, the lock of the job has not ended yet. -/
def runningJob : Memory.Store := { records := [("job", ⟨"a", 5⟩)] }

/-- In the table, the lock of the job has ended, and that of the night has not. -/
def endedJob : List Sql.Row := [⟨"job", "a", 5, 0, 0⟩, ⟨"night", "c", 50, 0, 0⟩]

/-- The lock of the night is released before the row of the job is read, and the connection breaks
down when this row has been taken over. -/
def brokenOff : List Sql.Disturbance :=
  [{}, {}, {}, {}, { visits := [⟨9, optionsFor "night" "c", .release⟩] },
    { mishap := some ⟨.refused "broken pipe", true⟩ }]

/-- The attempt ends in an error, and the row of the job is the one that was there. -/
theorem refused_unchanged_broken_off :
    (runningJob.answer 4 (optionsFor "job" "b") .acquire).1 = runningJob ∧
    ∃ w, (Sql.adapter .postgres (fun _ => 9) firstCall .acquire).run
        (Sql.Disturbed.of { table := some endedJob, locksRows := true } brokenOff) =
        (w, .ok (none, .acquire (.error (.unavailable "broken pipe")))) ∧
      w.database.table = some [⟨"job", "a", 5, 0, 0⟩] := by
  obtain ⟨memory, tables⟩ := refused_unchanged
  refine ⟨(memory _ 4 (optionsFor "job" "b") .acquire).1 (by decide), ?_⟩
  obtain ⟨w, a, hrun, halone, -, hfailed, -, -⟩ :=
    tables .postgres (fun _ => 9) firstCall .acquire
      { table := some endedJob, locksRows := true } brokenOff rfl (by
        rintro rows ⟨⟩
        decide)
  obtain rfl : _ = w := congrArg Prod.fst hrun
  refine ⟨_, rfl, ?_⟩
  have hspared := (hfailed rfl ⟨_, .tail _ (.head _), .refused "broken pipe", rfl, nofun, nofun⟩).2
  exact hspared.trans (halone.trans rfl)

end LeaseLock
