import LeaseLock.Proofs.Remote.Courses
import LeaseLock.Proofs.Sql.Lexis
import LeaseLock.Sql.Adapter

/-!
# What the values of a statement are for

**Uses** (`uses`). The words of a statement say what each open place is for: its value is stored in
a column, or a column is compared with it.

**Binding** (`bound`). Values come to the open places by number, or one after another if the places
have no numbers.

**The adapter** (`Binds`) sends five statements with values, each for a column: on every course of
every operation it sends these, and commands for transactions (`sends_adapter`).

Main result: `statements_bound`.
-/

namespace LeaseLock.Sql

open Talk (Course Says)

variable {α β : Type} {d : Dialect} {table : String} {reading : Int} {o : Options}

/-! ## Uses and values -/

/-- What the value of an open place is for. -/
inductive Use where
  | store (column : String)
  /-- The column is compared with the value, with that sign. -/
  | test (column : String) (sign : Char)
deriving DecidableEq, Repr

/-- An open place with its use, and with its number if it has one. -/
abbrev Purpose := Use × Option Nat

/-- The open places, in order, each with its number if it has one. -/
def places (ts : List Token) : List (Option Nat) :=
  ts.filterMap fun
    | .place n => some n
    | _ => none

/-- The words among others. -/
def wordsIn (ts : List Token) : List String :=
  ts.filterMap fun
    | .word s => some s
    | _ => none

/-- What stands on both sides of each sign: a column and an open place. -/
def pairs (use : String → Char → Use) : List Token → List Purpose
  | .word c :: .mark sign :: .place n :: ts => (use c sign, n) :: pairs use ts
  | _ :: ts => pairs use ts
  | [] => []

/-- What the open places behind a table are for, given the first word of the statement. -/
def usesBehind (verb : String) (ts : List Token) : List Purpose :=
  if verb = "INSERT" then
    ((wordsIn (ts.takeWhile (· ≠ .mark ')'))).map Use.store).zip (places ts)
  else
    let (sets, tests) := ts.span (· ≠ .word "WHERE")
    pairs (fun c _ => .store c) sets ++ pairs .test tests

/-- **What the open places of a statement are for.** The name of the table stands behind a key word,
and says nothing about them. -/
def uses : List Token → List Purpose
  | .word "INSERT" :: .word "INTO" :: .word _ :: ts => usesBehind "INSERT" ts
  | .word "UPDATE" :: .word _ :: ts => usesBehind "UPDATE" ts
  | .word "DELETE" :: .word "FROM" :: .word _ :: ts => usesBehind "DELETE" ts
  | .word "SELECT" :: ts => usesBehind "SELECT" ((ts.dropWhile (· ≠ .word "FROM")).drop 2)
  | _ => []

/-- The value that comes to a place: by number, or by its position among the places. -/
def valueAt (values : List Value) (position : Nat) : Option Nat → Option Value
  | some 0 => none
  | some (n + 1) => values[n]?
  | none => values[position]?

/-- The uses with the values that come to their places. -/
def bound (purposes : List Purpose) (values : List Value) : List (Use × Option Value) :=
  purposes.zipIdx.map fun x => (x.1.1, valueAt values x.2 x.1.2)

/-- The numbers of so many places, if the dialect gives numbers. -/
def numbering (d : Dialect) (count : Nat) : List (Option Nat) :=
  (List.range' 1 count).map fun n => if d = .postgres then some n else none

/-! ## What the adapter binds -/

/-- The statements that an operation sends with values, each value with what it is for. -/
inductive Binds (d : Dialect) (reading : Int) (o : Options) : Statement → List (Use × Value) → Prop
  | insert : Binds d reading o .insertRow
      [(.store "name", .text o.name), (.store "owner_id", .text o.owner),
        (.store "expired_at", .time (leaseEnd reading o)), (.store "created_at", .time reading),
        (.store "updated_at", .time reading)]
  | select : Binds d reading o (.readRow d) [(.test "name" '=', .text o.name)]
  | steal : Binds d reading o .stealRow
      [(.store "owner_id", .text o.owner), (.store "expired_at", .time (leaseEnd reading o)),
        (.store "updated_at", .time reading), (.test "name" '=', .text o.name),
        (.test "expired_at" '<', .time reading)]
  | refresh : Binds d reading o .refreshRow
      [(.store "expired_at", .time (leaseEnd reading o)), (.store "updated_at", .time reading),
        (.test "name" '=', .text o.name), (.test "owner_id" '=', .text o.owner)]
  | release : Binds d reading o .deleteRow
      [(.test "name" '=', .text o.name), (.test "owner_id" '=', .text o.owner)]

/-- **Each value comes to the place that it is meant for**, and each place gets a value. -/
theorem Binds.bound {s : Statement} {meant : List (Use × Value)} (h : Binds d reading o s meant)
    (table : String) :
    places (s.tokens d table) = numbering d meant.length ∧
      bound (uses (s.tokens d table)) (meant.map Prod.snd) =
        meant.map fun x => (x.1, some x.2) := by
  cases h <;> cases d <;> exact ⟨rfl, rfl⟩

/-! ## What is sent -/

/-- A command that an operation may send. -/
inductive Sent (d : Dialect) (reading : Int) (o : Options) : Command → Prop
  | start : Sent d reading o .start
  | commit : Sent d reading o .commit
  | rollback : Sent d reading o .rollback
  | abandon : Sent d reading o .abandon
  | execute {s : Statement} {meant : List (Use × Value)} : Binds d reading o s meant →
      Sent d reading o (.execute s (meant.map Prod.snd))

/-- Whatever it is answered, the talk sends these commands only. -/
def Sends (d : Dialect) (reading : Int) (o : Options) (t : Talk Command Response α) : Prop :=
  ∀ past, t.Keeps (fun _ c => Sent d reading o c) (fun _ _ => True) past

theorem Sends.done (a : α) : Sends d reading o (.done a : Talk Command Response α) := Says.done a

theorem Sends.question {c : Command} (h : Sent d reading o c) :
    Sends d reading o (Talk.question c) := Says.question h

theorem Sends.bind {t : Talk Command Response α} {f : α → Talk Command Response β}
    (h : Sends d reading o t) (hf : ∀ a, Sends d reading o (f a)) : Sends d reading o (t.bind f) :=
  Says.bind h hf

theorem Sends.owing {t : Talk Command Response α} (h : Sends d reading o t) :
    Sends d reading o (t.owing [.abandon]) := Says.owing h (List.forall_mem_singleton.2 .abandon)

namespace Exchange

theorem sends_bind {e : Exchange α} {f : α → Exchange β} (h : Sends d reading o e.run)
    (hf : ∀ a, Sends d reading o (f a).run) : Sends d reading o (e >>= f).run := by
  refine h.bind fun r => ?_
  cases r with
  | ok a => exact hf a
  | error fault => exact .done _

theorem sends_require {c : Command} (h : Sent d reading o c) :
    Sends d reading o (require c).run := .question h

theorem sends_response {c : Command} (h : Sent d reading o c) :
    Sends d reading o (response c).run := Sends.bind (.question h) fun _ => .done _

theorem sends_discard {e : Exchange α} (h : Sends d reading o e.run) :
    Sends d reading o (discard e).run := sends_bind h fun _ => .done _

theorem sends_transaction {body : Exchange α} (h : Sends d reading o body.run) :
    Sends d reading o (transaction body).run := by
  refine sends_bind (sends_discard (sends_require .start)) fun _ => Sends.bind (Sends.owing ?_) ?_
  · exact sends_bind h fun a => sends_bind (sends_discard (sends_require .commit)) fun _ => .done _
  · intro r
    cases r with
    | ok a => exact .done _
    | error fault => exact fun _ => ⟨.abandon, trivial⟩

theorem sends_result {e : Exchange α} (h : Sends d reading o e.run) :
    Sends d reading o e.result := by
  refine h.bind fun r => ?_
  cases r <;> exact .done _

end Exchange

open Exchange

theorem sends_addRow : Sends d reading o (addRow reading o).run := by
  refine sends_bind (sends_discard (sends_require .start)) fun _ =>
    sends_bind (sends_response (.execute .insert)) fun r => ?_
  split
  · exact sends_bind (sends_discard (sends_require .commit)) fun _ => .done _
  · exact sends_bind (sends_discard (sends_require .rollback)) fun _ => .done _
  · exact .done _

theorem sends_findRow : Sends d reading o (findRow d o).run := by
  refine sends_bind (sends_require (.execute .select)) fun y => ?_
  split <;> exact .done _

theorem sends_takeOver : Sends d reading o (takeOver reading o).run :=
  sends_bind (sends_require (.execute .steal)) fun _ => .done _

/-- **An operation sends these statements**, with these values, and nothing else but what begins and
ends transactions. -/
theorem sends_adapter (d : Dialect) (clock : Nat → Int) (e : Errand Empty) (op : Op) :
    Sends d (clock e.calls) e.options (adapter d clock e op) := by
  cases op with
  | acquire =>
    refine Sends.bind (sends_result (sends_transaction ?_)) fun _ => .done _
    refine sends_bind sends_addRow fun added => ?_
    cases added with
    | true => exact .done _
    | false =>
      refine sends_bind sends_findRow fun found => ?_
      cases found with
      | none => exact .done _
      | some row =>
        show Sends _ _ _ (ExceptT.run (if _ then _ else _))
        split
        · exact .done _
        · exact sends_bind sends_takeOver fun taken => by cases taken <;> exact .done _
  | refresh =>
    refine Sends.bind (Sends.bind (sends_result (sends_require (.execute .refresh))) fun r => ?_)
      fun _ => .done _
    split <;> exact .done _
  | release =>
    refine Sends.bind (Sends.bind (sends_result (sends_require (.execute .release))) fun r => ?_)
      fun _ => .done _
    split <;> exact .done _

/-- The talk asks the command on some course. -/
def Asks (t : Talk Command Response α) (c : Command) : Prop :=
  ∃ sent result answer, Course t sent result ∧ (c, answer) ∈ sent

theorem asks_first {c : Command} {owed : List Command} {next : Response → Talk Command Response α} :
    Asks (.ask c owed next) c := ⟨_, _, none, .cut, List.mem_cons_self⟩

theorem Asks.heard {c c' : Command} {owed : List Command}
    {next : Response → Talk Command Response α} (r : Response) (h : Asks (next r) c) :
    Asks (.ask c' owed next) c := by
  obtain ⟨sent, result, answer, hcourse, hmem⟩ := h
  exact ⟨_, result, answer, .heard hcourse, List.mem_cons_of_mem _ hmem⟩

theorem Binds.exists_asks {clock : Nat → Int} {e : Errand Empty} {s : Statement}
    {meant : List (Use × Value)} (h : Binds d (clock e.calls) e.options s meant) :
    ∃ op, Asks (adapter d clock e op) (.execute s (meant.map Prod.snd)) := by
  cases h with
  | insert => exact ⟨.acquire, .heard (.ok (.changed 0)) (.heard (.ok (.changed 0)) asks_first)⟩
  | select =>
    exact ⟨.acquire, .heard (.ok (.changed 0)) (.heard (.ok (.changed 0))
      (.heard (.error .duplicate) (.heard (.ok (.changed 0)) asks_first)))⟩
  | steal =>
    have hended : ¬clock e.calls ≤ clock e.calls - 1 := by omega
    refine ⟨.acquire, .heard (.ok (.changed 0)) (.heard (.ok (.changed 0))
      (.heard (.error .duplicate) (.heard (.ok (.changed 0))
        (.heard (.ok (.rows [[.text "", .time (clock e.calls - 1)]])) ?_))))⟩
    simp only [Talk.done_bind, ExceptT.bindCont, ExceptT.pure, pure, ExceptT.mk, hended, if_false]
    exact asks_first
  | refresh => exact ⟨.refresh, asks_first⟩
  | release => exact ⟨.release, asks_first⟩

/-- **The text of a statement and its values fit together.** For every dialect, the text of a
statement on an accepted table is read as fixed words, one of which is the name of the table. The
statements that an operation sends, on any of its courses, have as many open places as there are
values, numbered from one if the dialect gives numbers, and each value comes to the column that it
is meant for; and each of the five statements with values is sent. -/
theorem statements_bound (d : Dialect) :
    (∀ s : Statement, ∃ before after : List Token, ∀ table, tableFault? table = none →
      lex? d (s.text d table) = some (before ++ .word table :: after)) ∧
    ∀ (clock : Nat → Int) (e : Errand Empty),
      (∀ op sent result, Course (adapter d clock e op) sent result →
        ∀ s values answer, (.execute s values, answer) ∈ sent →
          ∃ meant, Binds d (clock e.calls) e.options s meant ∧ values = meant.map Prod.snd) ∧
      ∀ s meant, Binds d (clock e.calls) e.options s meant →
        (∃ op, Asks (adapter d clock e op) (.execute s (meant.map Prod.snd))) ∧
        ∀ table, tableFault? table = none → ∃ ts, lex? d (s.text d table) = some ts ∧
          places ts = numbering d meant.length ∧
          bound (uses ts) (meant.map Prod.snd) = meant.map fun x => (x.1, some x.2) := by
  refine ⟨fun s => ⟨s.before, s.after d, fun table h => Statement.lex?_text h d s⟩, ?_⟩
  intro clock e
  refine ⟨fun op sent result hcourse s values answer hmem => ?_, fun s meant h => ?_⟩
  · obtain ⟨-, hsent⟩ := hcourse.exists_may (sends_adapter d clock e op []) _ hmem
    cases hsent with
    | execute h => exact ⟨_, h, rfl⟩
  · exact ⟨h.exists_asks, fun table ht => ⟨_, Statement.lex?_text ht d s, h.bound table⟩⟩

/-- What the adapter needs to know for a call. -/
def night : Errand Empty :=
  ⟨{ owner := "a", name := "job" }, { owner := "a", name := "job" }, none, 0, 0⟩

/-- An owner moves the end of its row at the reading 5. -/
theorem statements_bound_night :
    (∃ meant, Binds .postgres 5 night.options .refreshRow meant ∧
      [.time (leaseEnd 5 night.options), .time 5, .text "job", .text "a"] =
        meant.map Prod.snd) ∧
    ∃ before after, lex? .postgres (Statement.refreshRow.text .postgres "Locks_2") =
        some (before ++ .word "Locks_2" :: after) ∧
      ∃ ts, lex? .postgres (Statement.refreshRow.text .postgres "Locks_2") = some ts ∧
        places ts = [some 1, some 2, some 3, some 4] ∧
        bound (uses ts) [.time (leaseEnd 5 night.options), .time 5, .text "job", .text "a"] =
          [(.store "expired_at", some (.time (leaseEnd 5 night.options))),
            (.store "updated_at", some (.time 5)), (.test "name" '=', some (.text "job")),
            (.test "owner_id" '=', some (.text "a"))] := by
  have htable : tableFault? "Locks_2" = none := by decide
  obtain ⟨hfixed, hbound⟩ := statements_bound .postgres
  obtain ⟨hsent, hmeant⟩ := hbound (fun _ => 5) night
  obtain ⟨before, after, hread⟩ := hfixed .refreshRow
  exact ⟨hsent .refresh _ none .cut _ _ none List.mem_cons_self, before, after, hread _ htable,
    (hmeant _ _ .refresh).2 _ htable⟩

end LeaseLock.Sql
