import LeaseLock.Proofs.Locker.History
import LeaseLock.Proofs.Sql.Rows

/-!
# Many clients of one database

**The traffic** (`Traffic`). A database with the lock table, the clock, the calls that are on their
way, and the log of the transactions that were carried out, the latest first. A call reads the
clock when it is made; its transaction is carried out at any time later, or never (`Move`). So a
reading may be stale, and calls may overtake each other.

**Transactions** (`Done`). One call: the rows before and after its transaction, and its answer.

**One transaction** says what the record of its name is after it (`Done.Lawful.record`), and what
it leaves as it is (`Done.Lawful.kept`). From these, by induction over the moves, whose the record
is until somebody takes it over (`Run.record_of_renewed`).

Main result: `Run.exclusive_row`.
-/

namespace LeaseLock.Sql

/-- A call that has read the clock. -/
structure Call where
  /-- Whose adapter is called. -/
  home : Nat
  errand : Errand Empty
  op : Op
  reading : Int

namespace Call

def name (c : Call) : String := c.errand.options.name

def owner (c : Call) : String := c.errand.options.owner

/-- When a lease ends that starts at the call's reading of the clock. -/
def due (c : Call) : Int := c.reading + c.errand.options.wholeMillis

/-- The end as it is written: no later than the largest number of 64 bits. -/
def ends (c : Call) : Int := leaseEnd c.reading c.errand.options

theorem ends_eq (c : Call) : c.ends = min c.due maxInt64 := rfl

end Call

/-- A call whose transaction was carried out. -/
structure Done extends Call where
  before : List Row
  after : List Row
  answer : Answer

namespace Done

/-- The call was granted the record, or has moved its end. -/
def renews (x : Done) : Bool := x.answer.renews

/-- The owner has neither renewed nor released the record among these. -/
def Untouched (x : Done) (later : List Done) : Prop :=
  ∀ y ∈ later, y.name = x.name → y.owner = x.owner → y.renews = false ∧ y.op ≠ .release

/-- Somebody else was granted the record, after a reading beyond its end. -/
def TakenOver (x : Done) (later : List Done) : Prop :=
  ∃ y ∈ later, y.name = x.name ∧ y.owner ≠ x.owner ∧ y.op = .acquire ∧ y.renews = true ∧
    x.due < y.reading

theorem not_takenOver {x : Done} {later : List Done} (h : ∀ y ∈ later, y.renews = false) :
    ¬x.TakenOver later := by
  rintro ⟨y, hy, -, -, -, hren, -⟩
  rw [h y hy] at hren
  cases hren

/-- The transaction has done what its operation does. -/
structure Lawful (x : Done) : Prop where
  unique : (x.before.map Row.name).Nodup
  reading_le : x.reading ≤ maxInt64
  outcome : (x.after, x.answer) = transact x.reading x.errand.options x.op x.before

namespace Lawful

variable {x : Done} {r : Row}

theorem after_eq (h : x.Lawful) :
    x.after = (transact x.reading x.errand.options x.op x.before).1 :=
  congrArg Prod.fst h.outcome

theorem answer_eq (h : x.Lawful) :
    x.answer = (transact x.reading x.errand.options x.op x.before).2 :=
  congrArg Prod.snd h.outcome

/-- An attempt finds the record of its name in the way, or takes it over. -/
theorem acquired (h : x.Lawful) (hop : x.op = .acquire)
    (hr : Database.row? x.before x.name = some r) :
    (x.reading ≤ r.expiredAt ∧ x.answer = .acquire (.ok (.occupied (some r.owner))) ∧
      x.after = x.before) ∨
    (r.expiredAt < x.reading ∧ x.answer = .acquire (.ok .granted)) := by
  have hafter := h.after_eq
  have hanswer := h.answer_eq
  simp only [hop, transact, Prod.map_fst, Prod.map_snd, id_eq] at hafter hanswer
  rcases acquireRows_cases x.reading x.errand.options x.before with
    ⟨hn, -⟩ | ⟨r', hr', hle, heq⟩ | ⟨r', hr', hlt, hg, -⟩
  · cases hn.symm.trans hr
  · cases hr'.symm.trans hr
    rw [heq] at hafter hanswer
    exact .inl ⟨hle, hanswer, hafter⟩
  · cases hr'.symm.trans hr
    rw [hg] at hanswer
    exact .inr ⟨hlt, hanswer⟩

theorem refreshed (h : x.Lawful) (hop : x.op = .refresh)
    (hr : Database.row? x.before x.name = some r) :
    (r.owner = x.owner ∧ x.renews = true) ∨
    (r.owner ≠ x.owner ∧ x.answer = .refresh (.error (.lost (.row x.name x.owner))) ∧
      x.after = x.before) := by
  have hafter := h.after_eq
  have hanswer := h.answer_eq
  rw [hop] at hafter hanswer
  rcases refresh_cases h.unique x.reading x.errand.options with
    ⟨r', hr', ho, hok, -⟩ | ⟨hne, heq⟩
  · cases hr'.symm.trans hr
    rw [hok] at hanswer
    exact .inl ⟨ho, by rw [renews, hanswer]; rfl⟩
  · rw [heq] at hafter hanswer
    exact .inr ⟨hne r hr, hanswer, hafter⟩

theorem released (h : x.Lawful) (hop : x.op = .release)
    (hr : Database.row? x.before x.name = some r) (ho : x.owner ≠ r.owner) :
    x.after = x.before := by
  have hafter := h.after_eq
  rw [hop] at hafter
  rcases release_cases h.unique x.reading x.errand.options with ⟨r', hr', ho', -⟩ | ⟨-, heq⟩
  · cases hr'.symm.trans hr
    exact absurd ho'.symm ho
  · exact hafter.trans heq

/-- What renews the record has written it. -/
theorem record (h : x.Lawful) (hr : x.renews = true) :
    ∃ r, Database.row? x.after x.name = some r ∧ r.owner = x.owner ∧ r.expiredAt = x.ends := by
  have hafter := h.after_eq
  have hanswer := h.answer_eq
  unfold renews at hr
  rw [hafter]
  rw [hanswer] at hr
  cases hop : x.op with
  | acquire =>
    rw [hop] at hr
    rcases acquireRows_cases x.reading x.errand.options x.before with
      ⟨-, -, hrow⟩ | ⟨r, -, -, heq⟩ | ⟨r, -, -, -, hrow⟩
    · exact ⟨_, hrow, rfl, rfl⟩
    · simp only [transact, heq, Prod.map_snd] at hr
      cases hr
    · exact ⟨_, hrow, rfl, rfl⟩
  | refresh =>
    rw [hop] at hr
    rcases refresh_cases h.unique x.reading x.errand.options with
      ⟨r, -, ho, -, hrow⟩ | ⟨-, heq⟩
    · exact ⟨_, hrow, ho, rfl⟩
    · rw [heq] at hr
      cases hr
  | release =>
    rw [hop] at hr
    cases hr

/-- **One transaction leaves the record as it is**, unless it is its owner's, or takes it over. -/
theorem kept (h : x.Lawful) {name : String} (hr : Database.row? x.before name = some r)
    (ho : x.name = name → x.owner = r.owner → x.renews = false ∧ x.op ≠ .release) :
    Database.row? x.after name = some r ∨
    (x.name = name ∧ x.owner ≠ r.owner ∧ x.op = .acquire ∧ x.renews = true ∧
      r.expiredAt < x.reading) := by
  by_cases hn : name = x.name
  · subst hn
    cases hop : x.op with
    | acquire =>
      rcases h.acquired hop hr with ⟨-, -, heq⟩ | ⟨hlt, hans⟩
      · exact .inl (heq ▸ hr)
      · have hren : x.renews = true := by rw [renews, hans]; rfl
        refine .inr ⟨rfl, fun hown => ?_, rfl, hren, hlt⟩
        exact Bool.false_ne_true ((ho rfl hown).1.symm.trans hren)
    | refresh =>
      rcases h.refreshed hop hr with ⟨hown, hren⟩ | ⟨-, -, heq⟩
      · exact absurd ((ho rfl hown.symm).1.symm.trans hren) Bool.false_ne_true
      · exact .inl (heq ▸ hr)
    | release =>
      have hne : x.owner ≠ r.owner := fun hown => (ho rfl hown).2 hop
      exact .inl (h.released hop hr hne ▸ hr)
  · rw [h.after_eq, row?_transact_of_ne hn]
    exact .inl hr

end Lawful

end Done

structure Traffic where
  dialect : Dialect
  database : Database
  /-- What the clock reads, in milliseconds. -/
  clock : Int
  calls : List Call := []
  /-- The transactions that were carried out, the latest first. -/
  log : List Done := []

inductive Move where
  /-- A call is made, and reads the clock. -/
  | call (home : Nat) (e : Errand Empty) (op : Op)
  /-- The transaction of a call is carried out. -/
  | execute (i : Nat)
  /-- A call is given up or fails; its transaction is undone as a whole, or never starts. -/
  | giveUp (i : Nat)
  /-- The clock goes on. -/
  | elapse (til : Int)

namespace Traffic

/-- The rows of the lock table. -/
def rows (t : Traffic) : List Row := t.database.table.getD []

/-- Carries the transaction of a call out. -/
def execute (t : Traffic) (i : Nat) (c : Call) : Option Traffic :=
  match (adapter t.dialect (fun _ => c.reading) c.errand c.op).run t.database with
  | (database, .ok (_, answer)) =>
    let t' : Traffic := { t with database, calls := t.calls.eraseIdx i }
    some { t' with log := { c with before := t.rows, after := t'.rows, answer } :: t.log }
  | (_, .error _) => none

def step (t : Traffic) : Move → Option Traffic
  | .call home e op => some { t with calls := t.calls ++ [⟨home, e, op, t.clock⟩] }
  | .execute i => t.calls[i]?.bind (t.execute i)
  | .giveUp i => some { t with calls := t.calls.eraseIdx i }
  | .elapse til =>
    if t.clock ≤ til ∧ til ≤ maxInt64 then some { t with clock := til } else none

/-- What has come out of a database in order by moves. -/
inductive Run : Traffic → Prop
  | start {d : Dialect} {db : Database} {rows : List Row} {clock : Int} :
      InOrder d db rows → clock ≤ maxInt64 → Run { dialect := d, database := db, clock }
  | step {t t' : Traffic} {m : Move} : Run t → t.step m = some t' → Run t'

/-- What becomes of the traffic by the moves given, the first one first. -/
def replay : Traffic → List Move → Option Traffic
  | t, [] => some t
  | t, m :: ms => match t.step m with
    | some t' => replay t' ms
    | none => none

variable {t t' : Traffic} {m : Move} {later earlier : List Done} {x : Done}

theorem Run.replay {ms : List Move} (run : Run t) (hr : replay t ms = some t') : Run t' := by
  induction ms generalizing t with
  | nil =>
    cases hr
    exact run
  | cons m ms ih =>
    unfold Traffic.replay at hr
    split at hr
    next t₁ hs => exact ih (run.step hs) hr
    · cases hr

/-- What a move does: one constructor for each kind. -/
inductive Shift (t : Traffic) : Traffic → Prop
  | called (home : Nat) (e : Errand Empty) (op : Op) :
      Shift t { t with calls := t.calls ++ [⟨home, e, op, t.clock⟩] }
  | executed {i : Nat} {c : Call} {rows' : List Row} {answer : Answer} : t.calls[i]? = some c →
      (rows', answer) = transact c.reading c.errand.options c.op t.rows →
      Shift t { t with
        database := t.database.holding rows'
        calls := t.calls.eraseIdx i
        log := { c with before := t.rows, after := rows', answer } :: t.log }
  | gaveUp (i : Nat) : Shift t { t with calls := t.calls.eraseIdx i }
  | elapsed {til : Int} : t.clock ≤ til → til ≤ maxInt64 → Shift t { t with clock := til }

theorem shift_of_step (ho : InOrder t.dialect t.database t.rows) (h : t.step m = some t') :
    Shift t t' := by
  cases m with
  | call home e op =>
    cases h
    exact .called home e op
  | execute i =>
    obtain ⟨c, hc, hs⟩ := Option.bind_eq_some_iff.1 h
    unfold execute at hs
    rw [run_adapter ho] at hs
    cases hs
    exact .executed hc rfl
  | giveUp i =>
    cases h
    exact .gaveUp i
  | elapse til =>
    simp only [step] at h
    split at h
    next hle =>
      cases h
      exact .elapsed hle.1 hle.2
    · cases h

/-! ## What every run keeps -/

/-- The database stays in order, and no reading is beyond the largest number of 64 bits. -/
structure Proper (t : Traffic) : Prop where
  inOrder : InOrder t.dialect t.database t.rows
  clock_le : t.clock ≤ maxInt64
  reading_le : ∀ c ∈ t.calls, c.reading ≤ maxInt64
  lawful : ∀ x ∈ t.log, x.Lawful

theorem Run.proper (run : Run t) : t.Proper := by
  induction run with
  | @start d db rows _ ho hle =>
    have hrows : db.table.getD [] = rows := by rw [ho.table, Option.getD_some]
    have ho' : InOrder d db (db.table.getD []) := by rwa [hrows]
    exact ⟨ho', hle, List.forall_mem_nil _, List.forall_mem_nil _⟩
  | step _ hs ih =>
    obtain ⟨ho, hle, hc, hl⟩ := ih
    cases shift_of_step ho hs with
    | called home e op =>
      refine ⟨ho, hle, fun c hm => ?_, hl⟩
      rcases List.mem_append.1 hm with hm | hm
      · exact hc c hm
      · rw [List.mem_singleton.1 hm]
        exact hle
    | @executed i c rows' answer hi ht =>
      have hrows : rows' = (transact c.reading c.errand.options c.op _).1 := congrArg Prod.fst ht
      refine ⟨⟨rfl, ho.locks, ho.saved, ho.opened, ?_⟩, hle,
        fun c hm => hc c (List.mem_of_mem_eraseIdx hm),
        List.forall_mem_cons.2 ⟨⟨ho.unique, ?_, ht⟩, hl⟩⟩
      · show (rows'.map Row.name).Nodup
        rw [hrows]
        exact unique_transact ho.unique _ _ _
      · exact hc c (List.mem_of_getElem? hi)
    | gaveUp => exact ⟨ho, hle, fun c hm => hc c (List.mem_of_mem_eraseIdx hm), hl⟩
    | elapsed _ hle' => exact ⟨ho, hle', hc, hl⟩

theorem Run.exists_before (run : Run t) (hlog : t.log = later ++ x :: earlier) :
    ∃ t₀, Run t₀ ∧ t₀.log = earlier ∧ t₀.rows = x.before := by
  induction run generalizing later with
  | start => simp at hlog
  | @step t _ _ run hs ih =>
    cases shift_of_step run.proper.inOrder hs with
    | called | gaveUp | elapsed => exact ih hlog
    | executed =>
      cases later with
      | nil =>
        obtain ⟨rfl, rfl⟩ := List.cons.inj hlog
        exact ⟨t, run, rfl, rfl⟩
      | cons y later => exact ih (List.cons.inj hlog).2

/-- **The record stands as it was written**, unless it was taken over or its owner has touched
it. -/
theorem Run.record_of_renewed (run : Run t) (hlog : t.log = later ++ x :: earlier)
    (hr : x.renews = true) (hu : x.Untouched later) :
    x.TakenOver later ∨ ∃ r, Database.row? t.rows x.name = some r ∧
      r.owner = x.owner ∧ r.expiredAt = x.ends := by
  induction run generalizing later with
  | start => simp at hlog
  | @step t _ _ run hs ih =>
    have lawful := (run.step hs).proper.lawful
    cases shift_of_step run.proper.inOrder hs with
    | called | gaveUp | elapsed => exact ih hlog hu
    | @executed i c rows' answer hi ht =>
      cases later with
      | nil =>
        obtain ⟨rfl, rfl⟩ := List.cons.inj hlog
        exact .inr ((lawful _ List.mem_cons_self).record hr)
      | cons y later =>
        obtain ⟨rfl, htail⟩ := List.cons.inj hlog
        have hy := lawful _ List.mem_cons_self
        rcases ih htail fun z hz => hu z (List.mem_cons_of_mem _ hz) with
          ⟨z, hz, htaken⟩ | ⟨r, hrow, hown, hends⟩
        · exact .inl ⟨z, List.mem_cons_of_mem _ hz, htaken⟩
        · rcases hy.kept hrow fun hn ho => hu _ List.mem_cons_self hn (ho.trans hown) with
            hkept | ⟨hn, ho, hop, hren, hlt⟩
          · exact .inr ⟨r, hkept, hown, hends⟩
          · refine .inl ⟨_, List.mem_cons_self, hn, hown ▸ ho, hop, hren, ?_⟩
            have hle := hy.reading_le
            rw [Call.ends_eq] at hends
            omega

theorem Run.exists_execute (run : Run t) {i : Nat} {c : Call} (hc : t.calls[i]? = some c) :
    ∃ t', t.step (.execute i) = some t' := by
  simp only [Traffic.step, hc, Option.bind_some, execute, run_adapter run.proper.inOrder]
  exact ⟨_, rfl⟩

/-- A call of the owner given, which names the lock by the default. -/
def errandOf (owner : String) : Errand Empty := ⟨{ owner }, { owner }, none, 0, 0⟩

/-- The first of three owners takes a lock. The others have read the clock before its lease ended;
the second one comes while the row is the first one's, the third one takes it over later. -/
def contested : List Move :=
  [.call 0 (errandOf "a") .acquire, .execute 0, .elapse 10000, .call 1 (errandOf "b") .acquire,
    .elapse 10001, .call 2 (errandOf "c") .acquire, .execute 0, .execute 0]

end Traffic

end LeaseLock.Sql
