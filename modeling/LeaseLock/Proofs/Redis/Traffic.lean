import LeaseLock.Proofs.Redis.Database
import LeaseLock.Proofs.Redis.Dialogues

/-!
# Many clients of one server

**The traffic** (`Traffic`). A server of keys, the operations that are on their way, and the log of
the commands that were run, the latest first. An operation may begin at any time, the next command
of any operation may be run at any time, and any operation may be given up (`Move`). An operation
that is given up after its command was sent is one whose command is run before it is given up.

**Exchanges** (`Exchange`). One command: what the server held before it, and the answer that the
operation has come to with the reply, if it has. All of them keep the rule of the operations
(`Run.lawful`).

**One command** says what the key holds after it (`Exchange.Lawful.decisive`) and whom the key may
have held before it (`Exchange.Lawful.owner_of_renews`). From these, by induction over the moves,
what the key holds as long as nobody's time has ended (`Run.keys_of_renewed`).

Main result: `Run.exclusive`.
-/

namespace LeaseLock.Redis

/-- An operation on its way. -/
structure Dialogue where
  keyspace : Keyspace
  errand : Errand Empty
  /-- What it has left to say. -/
  talk : Talk Command Reply (Option Empty × Answer)

namespace Dialogue

/-- An operation that has said nothing yet. -/
def of (ks : Keyspace) (e : Errand Empty) (op : Op) : Dialogue := ⟨ks, e, ks.adapter e op⟩

def key (d : Dialogue) : String := d.keyspace.key d.errand.own.name

def outcome? (d : Dialogue) : Option Answer := d.talk.result?.map (·.2)

/-- What is told in its stead if it is given up. -/
def debts (d : Dialogue) : List Command :=
  match d.talk with
  | .ask _ owed _ => owed
  | .done _ | .tell .. => []

def Lawful (d : Dialogue) : Prop :=
  d.talk.Heeds fun q reply r => Rule d.key d.errand.options q reply (r.map (·.2))

end Dialogue

/-- One command of an operation. -/
structure Exchange where
  key : String
  options : Options
  before : Database
  command : Command
  /-- What the operation has come to with the reply, if it is over. -/
  outcome : Option Answer

namespace Exchange

def reply (x : Exchange) : Reply := (x.before.answer x.command).2

def after (x : Exchange) : Database := (x.before.answer x.command).1

/-- What the key holds if it is written by this command. -/
def holding (x : Exchange) : Holding := x.before.hold x.options.owner x.options.wholeSecs

/-- The operation has come to a grant or to a refreshed record. -/
def renews (x : Exchange) : Bool := x.outcome.any Answer.renews

def Lawful (x : Exchange) : Prop := Rule x.key x.options x.command x.reply x.outcome

/-- The owner has run no script on its key among these. -/
def Untouched (x : Exchange) (later : List Exchange) : Prop :=
  ∀ y ∈ later, ∀ script, y.command ≠ .eval script x.key x.options.owner

variable {x y : Exchange}

theorem exists_outcome_of_renews (hr : x.renews = true) :
    ∃ a, x.outcome = some a ∧ a.renews = true := by
  unfold renews at hr
  cases ho : x.outcome with
  | none => simp [ho] at hr
  | some a => exact ⟨a, rfl, by simpa [ho] using hr⟩

/-- What renews the record has written the key, which was nobody else's. -/
theorem Lawful.decisive (h : x.Lawful) (hr : x.renews = true) :
    (x.command = .setAbsent x.key x.options.owner x.options.wholeSecs ∨
      x.command = .eval (.extend x.options.wholeSecs) x.key x.options.owner) ∧
    x.after.keys x.key = some x.holding := by
  obtain ⟨a, ho, ha⟩ := exists_outcome_of_renews hr
  rcases h.renews a ho ha with ⟨hc, text, hrep⟩ | ⟨hc, hrep⟩
  · unfold reply at hrep
    rw [hc] at hrep
    refine ⟨.inl hc, ?_⟩
    unfold after
    rw [hc]
    exact (Database.keys_of_set hrep).2
  · unfold reply at hrep
    rw [hc] at hrep
    refine ⟨.inr hc, ?_⟩
    unfold after
    rw [hc]
    exact (Database.keys_of_extend hrep).2

theorem Lawful.owner_of_renews (h : x.Lawful) (hr : x.renews = true) {held : Holding}
    (hl : x.before.live? x.key = some held) : held.owner = x.options.owner := by
  obtain ⟨a, ho, ha⟩ := exists_outcome_of_renews hr
  rcases h.renews a ho ha with ⟨hc, text, hrep⟩ | ⟨hc, hrep⟩
  · unfold reply at hrep
    rw [hc] at hrep
    rw [(Database.keys_of_set hrep).1] at hl
    cases hl
  · unfold reply at hrep
    rw [hc] at hrep
    obtain ⟨⟨held', hl', hown⟩, -⟩ := Database.keys_of_extend hrep
    rw [hl'] at hl
    cases hl
    exact hown

theorem Lawful.command_ne_eval (h : x.Lawful) {owner : String} (ho : x.options.owner ≠ owner)
    (script : Script) (key : String) : x.command ≠ .eval script key owner := by
  intro hc
  have hours := h.ours
  rw [hc] at hours
  cases hours
  exact ho rfl

theorem Lawful.held_of_occupied (h : x.Lawful) {owner : String}
    (ho : x.outcome = some (.acquire (.ok (.occupied (some owner))))) :
    x.command = .get x.key ∧ owner ≠ x.options.owner ∧
      ∃ held, x.before.live? x.key = some held ∧ held.owner = owner := by
  obtain ⟨hc, hrep, hne⟩ := h.occupied owner ho
  unfold reply at hrep
  rw [hc] at hrep
  exact ⟨hc, hne, Database.live?_of_get hrep⟩

end Exchange

/-! ## Moves -/

structure Traffic where
  database : Database
  dialogues : List Dialogue := []
  /-- The commands that were run, the latest first. -/
  log : List Exchange := []

inductive Move where
  | begin (ks : Keyspace) (e : Errand Empty) (op : Op)
  /-- The server runs the next command of an operation. -/
  | say (i : Nat)
  | giveUp (i : Nat)
  /-- Time passes until an instant. -/
  | elapse (til : Instant)

namespace Traffic

/-- Runs the next command of an operation. -/
def say (t : Traffic) (i : Nat) (d : Dialogue) : Option Traffic :=
  match d.talk with
  | .ask q _ next =>
    let d' : Dialogue := { d with talk := next (t.database.answer q).2 }
    some {
      database := (t.database.answer q).1
      dialogues := t.dialogues.set i d'
      log := ⟨d.key, d.errand.options, t.database, q, d'.outcome?⟩ :: t.log }
  | .done _ | .tell .. => none

def step (t : Traffic) : Move → Option Traffic
  | .begin ks e op => some { t with dialogues := t.dialogues ++ [.of ks e op] }
  | .say i => t.dialogues[i]?.bind (t.say i)
  | .giveUp i => t.dialogues[i]?.map fun d =>
    { t with
      database := Talk.tellAll t.database d.debts
      dialogues := t.dialogues.eraseIdx i }
  | .elapse til =>
    if t.database.now ≤ til then some { t with database := { t.database with now := til } }
    else none

/-- What has come out of a server by moves. -/
inductive Run : Traffic → Prop
  | start (database : Database) : Run { database }
  | step {t t' : Traffic} {m : Move} : Run t → t.step m = some t' → Run t'

/-- What becomes of the traffic by the moves given, the first one first. -/
def replay : Traffic → List Move → Option Traffic
  | t, [] => some t
  | t, m :: ms => match t.step m with
    | some t' => replay t' ms
    | none => none

variable {t t' : Traffic} {m : Move} {later earlier : List Exchange} {x : Exchange}

theorem Run.replay {ms : List Move} (run : Run t) (hr : replay t ms = some t') : Run t' := by
  induction ms generalizing t with
  | nil =>
    cases hr
    exact run
  | cons m ms ih =>
    unfold Traffic.replay at hr
    split at hr
    next t₁ hs => exact ih (run.step hs) hr
    · cases hr

/-- What a move does: one constructor for each kind. -/
inductive Shift (t : Traffic) : Traffic → Prop
  | begun (ks : Keyspace) (e : Errand Empty) (op : Op) :
      Shift t { t with dialogues := t.dialogues ++ [.of ks e op] }
  | said {i : Nat} {d : Dialogue} {q : Command} {owed : List Command}
      {next : Reply → Talk Command Reply (Option Empty × Answer)} :
      t.dialogues[i]? = some d → d.talk = .ask q owed next →
      Shift t {
        database := (t.database.answer q).1
        dialogues := t.dialogues.set i { d with talk := next (t.database.answer q).2 }
        log := ⟨d.key, d.errand.options, t.database, q,
          (next (t.database.answer q).2).result?.map (·.2)⟩ :: t.log }
  | gaveUp {i : Nat} {d : Dialogue} : t.dialogues[i]? = some d →
      Shift t { t with
        database := Talk.tellAll t.database d.debts
        dialogues := t.dialogues.eraseIdx i }
  | elapsed {til : Instant} : t.database.now ≤ til →
      Shift t { t with database := { t.database with now := til } }

theorem shift_of_step (h : t.step m = some t') : Shift t t' := by
  cases m with
  | begin ks e op =>
    cases h
    exact .begun ks e op
  | say i =>
    obtain ⟨d, hd, hs⟩ := Option.bind_eq_some_iff.1 h
    unfold say at hs
    split at hs
    next q owed next ht =>
      cases hs
      exact .said hd ht
    · cases hs
    · cases hs
  | giveUp i =>
    obtain ⟨d, hd, rfl⟩ := Option.map_eq_some_iff.1 h
    exact .gaveUp hd
  | elapse til =>
    simp only [step] at h
    split at h
    next ht =>
      cases h
      exact .elapsed ht
    · cases h

/-! ## What every run keeps -/

theorem Dialogue.Lawful.debts {d : Dialogue} (h : d.Lawful) : d.debts = [] := by
  unfold Dialogue.debts
  unfold Dialogue.Lawful at h
  cases ht : d.talk with
  | done | tell => rfl
  | ask =>
    rw [ht] at h
    exact h.1

theorem Dialogue.lawful_of (ks : Keyspace) (e : Errand Empty) (op : Op) :
    (Dialogue.of ks e op).Lawful := heeds_adapter ks e op

/-- The rule is kept by every command that was run, and by what is left to say. -/
theorem Run.lawful (run : Run t) : (∀ d ∈ t.dialogues, d.Lawful) ∧ ∀ x ∈ t.log, x.Lawful := by
  induction run with
  | start => exact ⟨List.forall_mem_nil _, List.forall_mem_nil _⟩
  | @step t _ _ run hs ih =>
    obtain ⟨hd, hl⟩ := ih
    cases shift_of_step hs with
    | begun ks e op =>
      refine ⟨fun d hm => ?_, hl⟩
      rcases List.mem_append.1 hm with hm | hm
      · exact hd d hm
      · rw [List.mem_singleton.1 hm]
        exact Dialogue.lawful_of ks e op
    | @said i d q owed next hi ht =>
      have h := hd d (List.mem_of_getElem? hi)
      unfold Dialogue.Lawful at h
      rw [ht] at h
      obtain ⟨hrule, hnext⟩ := h.2 (t.database.answer q).2
      constructor
      · intro d' hm
        rcases List.mem_or_eq_of_mem_set hm with hm | rfl
        · exact hd d' hm
        · exact hnext
      · exact List.forall_mem_cons.2 ⟨hrule, hl⟩
    | gaveUp hi => exact ⟨fun d hm => hd d (List.mem_of_mem_eraseIdx hm), hl⟩
    | elapsed => exact ⟨hd, hl⟩

/-- An operation that is over has come to its answer with a command. -/
theorem Run.exists_exchange (run : Run t) {d : Dialogue} (hd : d ∈ t.dialogues) {a : Answer}
    (ha : d.outcome? = some a) :
    ∃ x ∈ t.log, x.key = d.key ∧ x.options = d.errand.options ∧ x.outcome = some a := by
  induction run with
  | start => cases hd
  | @step t _ _ run hs ih =>
    cases shift_of_step hs with
    | begun ks e op =>
      rcases List.mem_append.1 hd with hd | hd
      · exact ih hd
      · rw [List.mem_singleton.1 hd] at ha
        cases op <;> cases ha
    | said hi ht =>
      rcases List.mem_or_eq_of_mem_set hd with hd | rfl
      · obtain ⟨x, hx, h⟩ := ih hd
        exact ⟨x, List.mem_cons_of_mem _ hx, h⟩
      · exact ⟨_, List.mem_cons_self, rfl, rfl, ha⟩
    | gaveUp => exact ih (List.mem_of_mem_eraseIdx hd)
    | elapsed => exact ih hd

theorem Run.exists_before (run : Run t) (hlog : t.log = later ++ x :: earlier) :
    ∃ t₀, Run t₀ ∧ t₀.log = earlier ∧ t₀.database = x.before := by
  induction run generalizing later with
  | start => simp at hlog
  | @step t _ _ run hs ih =>
    cases shift_of_step hs with
    | begun | gaveUp | elapsed => exact ih hlog
    | said =>
      cases later with
      | nil =>
        obtain ⟨rfl, rfl⟩ := List.cons.inj hlog
        exact ⟨t, run, rfl, rfl⟩
      | cons y later => exact ih (List.cons.inj hlog).2

/-- **The key stands as it was written**, until its time to live ends or its owner runs a script. -/
theorem Run.keys_of_renewed (run : Run t) (hlog : t.log = later ++ x :: earlier)
    (hr : x.renews = true) (hu : x.Untouched later) (hnow : t.database.now < x.holding.ends) :
    t.database.keys x.key = some x.holding := by
  induction run generalizing later with
  | start => simp at hlog
  | @step t _ _ run hs ih =>
    have lawful := (run.step hs).lawful.2
    cases shift_of_step hs with
    | begun => exact ih hlog hu hnow
    | @gaveUp i d hi =>
      have hdebts := Dialogue.Lawful.debts (run.lawful.1 d (List.mem_of_getElem? hi))
      simp only [hdebts, Talk.tellAll, List.foldl_nil] at hnow ⊢
      exact ih hlog hu hnow
    | elapsed hle => exact ih hlog hu (Nat.lt_of_le_of_lt hle hnow)
    | @said i d q owed next hi ht =>
      cases later with
      | nil =>
        obtain ⟨rfl, rfl⟩ := List.cons.inj hlog
        exact ((lawful _ List.mem_cons_self).decisive hr).2
      | cons y later =>
        obtain ⟨rfl, htail⟩ := List.cons.inj hlog
        rw [Database.now_answer] at hnow
        have hkeys := ih htail (fun y hy => hu y (List.mem_cons_of_mem _ hy)) hnow
        have hlive := Database.live?_eq_some_iff.2 ⟨hkeys, hnow⟩
        exact (Database.answer_of_live hlive (hu _ List.mem_cons_self)).trans hkeys

/-- **One owner at a time**, however the commands of all operations are interleaved. An operation
that renews the record has written its key, which stands until its time to live ends or its owner
runs a script; until then nobody else's command touches it, and nobody else renews the record. And
whoever is said to be in the way held the live key when it was read, and is somebody else. -/
theorem Run.exclusive (run : Run t) :
    (∀ d ∈ t.dialogues, ∀ a, d.outcome? = some a →
      ∃ x ∈ t.log, x.key = d.key ∧ x.options = d.errand.options ∧ x.outcome = some a) ∧
    (∀ later x earlier, t.log = later ++ x :: earlier → x.renews = true →
      ((x.command = .setAbsent x.key x.options.owner x.options.wholeSecs ∨
          x.command = .eval (.extend x.options.wholeSecs) x.key x.options.owner) ∧
        x.after.keys x.key = some x.holding) ∧
      (x.Untouched later → t.database.now < x.holding.ends →
        t.database.keys x.key = some x.holding) ∧
      ∀ newer y older, later = newer ++ y :: older → x.Untouched older →
        y.before.now < x.holding.ends → y.options.owner ≠ x.options.owner →
        y.before.keys x.key = some x.holding ∧ y.after.keys x.key = some x.holding ∧
          (y.key = x.key → y.renews = false)) ∧
    ∀ x ∈ t.log, ∀ owner, x.outcome = some (.acquire (.ok (.occupied (some owner)))) →
      x.command = .get x.key ∧ owner ≠ x.options.owner ∧
        ∃ held, x.before.live? x.key = some held ∧ held.owner = owner := by
  have lawful := run.lawful.2
  refine ⟨fun d hd a ha => run.exists_exchange hd ha, ?_,
    fun x hx owner ho => (lawful x hx).held_of_occupied ho⟩
  intro later x earlier hlog hr
  have hx : x ∈ t.log := by simp [hlog]
  refine ⟨(lawful x hx).decisive hr, run.keys_of_renewed hlog hr, ?_⟩
  rintro newer y older rfl hu hnow ho
  have hy : y ∈ t.log := by simp [hlog]
  rw [List.append_assoc, List.cons_append] at hlog
  obtain ⟨t₀, run₀, hlog₀, hdb⟩ := run.exists_before hlog
  rw [← hdb] at hnow ⊢
  have hkeys := run₀.keys_of_renewed hlog₀ hr hu hnow
  have hlive := Database.live?_eq_some_iff.2 ⟨hkeys, hnow⟩
  have hcommand := fun script => (lawful y hy).command_ne_eval ho script x.key
  refine ⟨hkeys, ?_, fun hkey => ?_⟩
  · unfold Exchange.after
    rw [← hdb]
    exact (Database.answer_of_live hlive hcommand).trans hkeys
  · by_contra hren
    have hren : y.renews = true := by simpa using hren
    rw [hdb, ← hkey] at hlive
    exact ho ((lawful y hy).owner_of_renews hren hlive).symm

/-- An errand of the owner given. -/
def errandOf (owner : String) : Errand Empty := ⟨{ owner }, { owner }, none, 0, 0⟩

/-- Two operations set a key in turn; the second one reads it four seconds later. -/
def contested : List Move :=
  [.begin {} (errandOf "a") .acquire, .begin {} (errandOf "b") .acquire, .say 0, .say 1,
    .elapse 4000000000, .say 1]

theorem exclusive_contested : ∃ (t : Traffic) (first second third : Exchange),
    Run t ∧ t.log = [third, second, first] ∧
    first.renews = true ∧ second.command = .setAbsent first.key "b" 10 ∧
    (first.after.keys first.key = some ⟨"a", 10000000000⟩ ∧ second.renews = false) ∧
    third.outcome = some (.acquire (.ok (.occupied (some "a")))) ∧
    ∃ held, third.before.live? third.key = some held ∧ held.owner = "a" := by
  have run : Run _ := (Run.start {}).replay (Option.some_get (x := replay _ contested) rfl).symm
  obtain ⟨-, renewed, occupied⟩ := run.exclusive
  obtain ⟨decisive, -, others⟩ := renewed [_, _] _ [] rfl rfl
  have second := others [_] _ [] rfl nofun (by decide) (by decide)
  exact ⟨_, _, _, _, run, rfl, rfl, by decide +kernel, ⟨decisive.2, second.2.2 rfl⟩, rfl,
    (occupied _ List.mem_cons_self "a" rfl).2.2⟩

end Traffic

end LeaseLock.Redis
