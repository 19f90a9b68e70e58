import LeaseLock.Proofs.Text.Decimal
import LeaseLock.Sql.Statement

/-!
# Statements as they are read

**Words** (`Token`). What the text of a statement is cut into: words, numbers, open places, quoted
texts and names, and marks. A name and a key word have one form, and only the grammar of a dialect
tells them apart. An operator of several marks is given as these marks.

**Reading** (`Mode`, `scan?`). The text is read character by character. The mode tells what stands
open: a word may go on, a quotation has to be closed, and a comment goes on to its end. The dialects
differ in their open places, in their quotation marks and in what begins a comment.

A text is closed if nothing stands open behind it (`Closed`); a text that a separator closes may
be followed by one (`Reads`). Closed texts are read one after another (`Closed.append`), whatever is
in them, and a plain identifier is one word (`reads_name`).

Main result: `Statement.lex?_text`.
-/

namespace LeaseLock.Sql

variable {d : Dialect} {table : String}

/-- What a statement is made of. -/
inductive Token where
  /-- A name or a key word. -/
  | word (s : String)
  | number (s : String)
  /-- A place for a value, by number if it has one. -/
  | place (number : Option Nat)
  /-- What stands between quotation marks, and the first of these. -/
  | quoted (opening : Char) (s : String)
  | mark (c : Char)
deriving DecidableEq, Repr

/-- What stands open. -/
inductive Mode where
  | gap
  | word (cs : List Char)
  | number (cs : List Char)
  /-- The digits behind the sign of an open place. -/
  | place (digits : List Char)
  | quoted (opening : Char) (cs : List Char)
  /-- A backslash in a quotation. -/
  | escaped (opening : Char) (cs : List Char)
  /-- The quotation ends here, unless its mark is doubled. -/
  | closing (opening : Char) (cs : List Char)
  /-- One dash, or two of them that a blank makes a comment. -/
  | dashes (two : Bool)
  | slash
  | lineComment
  /-- Comments within each other, and the character before. -/
  | comment (depth : Nat) (last : Char)
deriving DecidableEq, Repr

namespace Dialect

/-- The sign of an open place. -/
def placeSign : Dialect → Char
  | postgres => '$'
  | mySql | sqlite => '?'

/-- Open places can have numbers. -/
def numbersPlaces : Dialect → Bool
  | postgres | sqlite => true
  | mySql => false

/-- The marks that open a quotation. -/
def quotationMarks : Dialect → List Char
  | postgres => ['\'', '"']
  | mySql => ['\'', '"', '\x60']
  | sqlite => ['\'', '"', '\x60', '[']

/-- The marks that are none, but begin a comment or a place with a name. -/
def otherMarks : Dialect → List Char
  | postgres => []
  | mySql => ['#']
  | sqlite => ['#', '$', ':', '@']

end Dialect

def isBlank (c : Char) : Bool := c ∈ [' ', '\t', '\n', '\r', '\x0c']

def startsWord (c : Char) : Bool := c.isAlpha || c == '_' || 127 < c.toNat

def inWord (c : Char) : Bool := startsWord c || c.isDigit || c == '$'

/-- The mark that closes a quotation. -/
def closingMark (opening : Char) : Char := if opening = '[' then ']' else opening

/-- The place whose digits these are. One without digits has no number, if it need not have one. -/
def placeOf? (d : Dialect) (digits : List Char) : Option Token :=
  match digits, d with
  | [], .postgres => none
  | [], .mySql | [], .sqlite => some (.place none)
  | digits, _ => (Text.Decimal.value? digits).map fun n => .place (some n)

/-- What is complete if nothing more belongs to it. -/
def Mode.complete? (d : Dialect) : Mode → Option (List Token)
  | gap => some []
  | word cs => some [.word (String.ofList cs)]
  | number cs => some [.number (String.ofList cs)]
  | place digits => (placeOf? d digits).map fun t => [t]
  | closing opening cs => some [.quoted opening (String.ofList cs)]
  | dashes two => some (List.replicate (if two then 2 else 1) (.mark '-'))
  | slash => some [.mark '/']
  | quoted _ _ | escaped _ _ | lineComment | comment _ _ => none

/-- What a character begins. -/
def opened? (d : Dialect) (c : Char) : Option (List Token × Mode) :=
  if isBlank c then some ([], .gap)
  else if startsWord c then some ([], .word [c])
  else if c.isDigit then some ([], .number [c])
  else if c = d.placeSign then some ([], .place [])
  else if c ∈ d.quotationMarks then some ([], .quoted c [])
  else if c ∈ d.otherMarks then if d = .mySql then some ([], .lineComment) else none
  else if c = '-' then some ([], .dashes false)
  else if c = '/' then some ([], .slash)
  else if 32 < c.toNat ∧ c.toNat < 127 then some ([.mark c], .gap)
  else none

/-- What goes on with a character, if anything does. -/
def Mode.continued? (d : Dialect) (c : Char) : Mode → Option Mode
  | gap => none
  | word cs => if inWord c then some (.word (cs ++ [c])) else none
  | number cs => if inWord c || c == '.' then some (.number (cs ++ [c])) else none
  | place digits =>
    if c.isDigit && d.numbersPlaces then some (.place (digits ++ [c])) else none
  | quoted opening cs =>
    if c = closingMark opening then some (.closing opening cs)
    else if c = '\\' ∧ d = .mySql ∧ opening ≠ '\x60' then some (.escaped opening cs)
    else some (.quoted opening (cs ++ [c]))
  | escaped opening cs => some (.quoted opening (cs ++ ['\\', c]))
  | closing opening cs =>
    if c = opening ∧ opening ≠ '[' then some (.quoted opening (cs ++ [c])) else none
  | dashes two =>
    if two then if isBlank c then some .lineComment else none
    else if c = '-' then some (if d = .mySql then .dashes true else .lineComment)
    else none
  | slash => if c = '*' then some (.comment 1 ' ') else none
  | lineComment => some (if c = '\n' then .gap else .lineComment)
  | comment depth last =>
    if last = '*' ∧ c = '/' then some (if depth ≤ 1 then .gap else .comment (depth - 1) ' ')
    else if last = '/' ∧ c = '*' ∧ d = .postgres then some (.comment (depth + 1) ' ')
    else some (.comment depth c)

/-- Reads one character. -/
def Mode.step? (d : Dialect) (m : Mode) (c : Char) : Option (List Token × Mode) :=
  match m.continued? d c with
  | some m => some ([], m)
  | none => do
    let ts ← m.complete? d
    let (us, m) ← opened? d c
    return (ts ++ us, m)

/-- Reads characters one by one. -/
def scan? (d : Dialect) (m : Mode) : List Char → Option (List Token × Mode)
  | [] => some ([], m)
  | c :: cs => do
    let (ts, m) ← m.step? d c
    let (us, m) ← scan? d m cs
    return (ts ++ us, m)

/-- **Reads a statement**, which ends like a line. -/
def lex? (d : Dialect) (s : String) : Option (List Token) :=
  match scan? d .gap (s.toList ++ ['\n']) with
  | some (ts, .gap) => some ts
  | _ => none

/-! ## Texts behind each other -/

variable {m : Mode} {cs cs' : List Char} {ts ts' : List Token}

theorem scan?_cons {m' : Mode} {c : Char} (h : m.step? d c = some (ts, m')) (cs : List Char) :
    scan? d m (c :: cs) = (scan? d m' cs).map fun x => (ts ++ x.1, x.2) := by
  rw [scan?, h]
  show ((scan? d m' cs).bind fun x => some (ts ++ x.1, x.2)) = _
  cases scan? d m' cs <;> rfl

theorem scan?_append {m' : Mode} (h : scan? d m cs = some (ts, m')) (cs' : List Char) :
    scan? d m (cs ++ cs') = (scan? d m' cs').map fun x => (ts ++ x.1, x.2) := by
  induction cs generalizing m ts with
  | nil =>
    cases h
    simp
  | cons c cs ih =>
    obtain ⟨x, hx, h⟩ := Option.bind_eq_some_iff.1 h
    obtain ⟨y, hy, h⟩ := Option.bind_eq_some_iff.1 h
    cases h
    rw [List.cons_append, scan?_cons hx, ih hy]
    cases scan? d y.2 cs' <;> simp

/-- The text is read from the start, and nothing stands open behind it. -/
def Closed (d : Dialect) (cs : List Char) (ts : List Token) : Prop :=
  scan? d .gap cs = some (ts, .gap)

/-- What stands between words. -/
def separators : List Char := [' ', ',', '(', ')', '\n']

/-- What is so of none of the separators. -/
theorem eq_false_of_separator {p : Char → Bool} {c : Char} (h : separators.all (!p ·) = true)
    (hc : c ∈ separators) : p c = false := by
  simpa using List.all_eq_true.1 h c hc

/-- What the text is read as from the start, if any separator closes it. -/
def closed? (d : Dialect) (cs : List Char) : Option (List Token) := do
  let (ts, m) ← scan? d .gap cs
  let us ← m.complete? d
  if separators.all fun c => (m.continued? d c).isNone then some (ts ++ us) else none

/-- The text is read from the start, and any separator closes it. -/
def Reads (d : Dialect) (cs : List Char) (ts : List Token) : Prop := closed? d cs = some ts

instance : Decidable (Reads d cs ts) := inferInstanceAs (Decidable (closed? d cs = some ts))

instance : Decidable (Closed d cs ts) :=
  inferInstanceAs (Decidable (scan? d .gap cs = some (ts, .gap)))

theorem Closed.append (h : Closed d cs ts) (h' : Closed d cs' ts') :
    Closed d (cs ++ cs') (ts ++ ts') := by
  rw [Closed, scan?_append h, show scan? d .gap cs' = _ from h']
  rfl

theorem reads_iff : Reads d cs ts ↔ ∃ m us vs, scan? d .gap cs = some (us, m) ∧ ts = us ++ vs ∧
    m.complete? d = some vs ∧ ∀ c ∈ separators, m.continued? d c = none := by
  unfold Reads closed?
  simp only [Option.bind_eq_bind, Option.bind_eq_some_iff, List.all_eq_true,
    Option.isNone_iff_eq_none]
  constructor
  · rintro ⟨⟨us, m⟩, hscan, vs, hcomplete, h⟩
    split at h
    next hends => exact ⟨m, us, vs, hscan, (Option.some.inj h).symm, hcomplete, hends⟩
    · cases h
  · rintro ⟨m, us, vs, hscan, rfl, hcomplete, hends⟩
    exact ⟨(us, m), hscan, vs, hcomplete, if_pos hends⟩

theorem Closed.reads (h : Closed d cs ts) : Reads d cs ts :=
  reads_iff.2 ⟨.gap, ts, [], h, (List.append_nil ts).symm, rfl, fun _ _ => rfl⟩

theorem Closed.append_reads (h : Closed d cs ts) (h' : Reads d cs' ts') :
    Reads d (cs ++ cs') (ts ++ ts') := by
  obtain ⟨m, us, vs, hscan, rfl, hcomplete, hends⟩ := reads_iff.1 h'
  refine reads_iff.2 ⟨m, ts ++ us, vs, ?_, (List.append_assoc ..).symm, hcomplete, hends⟩
  rw [scan?_append h, hscan]
  rfl

/-- A separator closes what stands before it. -/
theorem Reads.append_closed (h : Reads d cs ts) (h' : Closed d cs' ts')
    (hc : cs'.head?.any (· ∈ separators) = true) : Closed d (cs ++ cs') (ts ++ ts') := by
  obtain ⟨m, us, vs, hscan, rfl, hcomplete, hends⟩ := reads_iff.1 h
  cases cs' with
  | nil => cases hc
  | cons c cs' =>
  have hc : c ∈ separators := by simpa using hc
  have hgap : Mode.gap.step? d c = opened? d c := by
    show ((opened? d c).bind fun x => some ([] ++ x.1, x.2)) = _
    cases opened? d c <;> rfl
  have hstep : m.step? d c = (opened? d c).map fun x => (vs ++ x.1, x.2) := by
    rw [Mode.step?, hends c hc]
    show ((m.complete? d).bind fun ts => (opened? d c).bind fun x => some (ts ++ x.1, x.2)) = _
    rw [hcomplete]
    cases opened? d c <;> rfl
  obtain ⟨x, hx, h'⟩ := Option.bind_eq_some_iff.1 (show scan? d .gap (c :: cs') = _ from h')
  obtain ⟨⟨ws, m'⟩, hy, h'⟩ := Option.bind_eq_some_iff.1 h'
  cases h'
  rw [hgap] at hx
  rw [hx] at hstep
  rw [Closed, scan?_append hscan, scan?_cons hstep, hy]
  simp

/-- A text that a separator closes is a statement. -/
theorem lex?_of_reads {s : String} (h : Reads d s.toList ts) : lex? d s = some ts := by
  have hend : Closed d ['\n'] [] := by cases d <;> decide
  have hclosed := h.append_closed hend (by decide)
  rw [List.append_nil] at hclosed
  rw [lex?, show scan? d .gap (s.toList ++ ['\n']) = _ from hclosed]

/-! ## Names, places and lists -/

/-- The text can be the name of something. -/
def IsName (s : String) : Prop :=
  ∃ c cs, s.toList = c :: cs ∧ startsWord c = true ∧ ∀ c ∈ cs, inWord c = true

theorem scan?_word (word : List Char) (h : ∀ c ∈ cs, inWord c = true) :
    scan? d (.word word) cs = some ([], .word (word ++ cs)) := by
  induction cs generalizing word with
  | nil => rw [List.append_nil]; rfl
  | cons c cs ih =>
    obtain ⟨hc, hcs⟩ := List.forall_mem_cons.1 h
    have hstep : (Mode.word word).step? d c = some ([], .word (word ++ [c])) := by
      rw [Mode.step?, Mode.continued?, if_pos hc]
    rw [scan?_cons hstep, ih _ hcs, List.append_assoc]
    rfl

/-- **A name is one word.** -/
theorem reads_name {s : String} (h : IsName s) : Reads d s.toList [.word s] := by
  obtain ⟨c, cs, hs, hc, hcs⟩ := h
  have hblank : isBlank c = false := by
    rw [isBlank, decide_eq_false_iff_not]
    intro hmem
    have hall : [' ', '\t', '\n', '\r', '\x0c'].all (!startsWord ·) = true := by decide
    have hstarts := List.all_eq_true.1 hall c hmem
    rw [hc] at hstarts
    cases hstarts
  have hstep : Mode.gap.step? d c = some ([], .word [c]) := by
    simp [Mode.step?, Mode.continued?, Mode.complete?, opened?, hblank, hc]
  refine reads_iff.2 ⟨.word s.toList, [], [.word s], ?_, rfl, ?_, ?_⟩
  · rw [hs, scan?_cons hstep, scan?_word [c] hcs]
    rfl
  · rw [Mode.complete?, String.ofList_toList]
  · intro c hc
    have hword : inWord c = false := eq_false_of_separator (by decide) hc
    rw [Mode.continued?, hword]
    rfl

/-- **A table that is accepted has a name.** -/
theorem isName_of_tableFault? (h : tableFault? table = none) : IsName table := by
  unfold tableFault? at h
  dsimp only at h
  split at h
  · cases h
  next c cs hs =>
    split at h
    next hword =>
      simp only [Bool.and_eq_true, Bool.not_eq_true', List.all_eq_true, Bool.or_eq_true,
        beq_iff_eq, Char.isAlphanum, List.forall_mem_cons] at hword
      obtain ⟨hdigit, hc, hcs⟩ := hword
      refine ⟨c, cs, hs, ?_, fun c hc => ?_⟩
      · simpa [startsWord, hdigit] using Or.inl hc
      · have hword := hcs c hc
        simp only [inWord, startsWord, Bool.or_eq_true, beq_iff_eq]
        tauto
    · cases h

theorem isName_column (c : Column) : IsName c.text := by
  cases c
  all_goals exact ⟨_, _, rfl, by decide, List.all_eq_true.1 (by decide)⟩

/-- The `n`-th open place as it is read. -/
def openPlace (d : Dialect) (n : Nat) : Token :=
  .place (if d = .postgres then some n else none)

theorem scan?_place {digits : List Char} (hd : d.numbersPlaces = true)
    (h : ∀ c ∈ cs, c.isDigit = true) :
    scan? d (.place digits) cs = some ([], .place (digits ++ cs)) := by
  induction cs generalizing digits with
  | nil => rw [List.append_nil]; rfl
  | cons c cs ih =>
    obtain ⟨hc, hcs⟩ := List.forall_mem_cons.1 h
    have hstep : (Mode.place digits).step? d c = some ([], .place (digits ++ [c])) := by
      simp [Mode.step?, Mode.continued?, hc, hd]
    rw [scan?_cons hstep, ih hcs, List.append_assoc]
    rfl

/-- **A placeholder is one open place**, and has its number if the dialect gives numbers. -/
theorem reads_placeholder (d : Dialect) (n : Nat) :
    Reads d (d.placeholder n).toList [openPlace d n] := by
  cases d with
  | postgres =>
    have hdigits : ∀ c ∈ Nat.toDigits 10 n, c.isDigit = true := fun c hc =>
      Nat.isDigit_of_mem_toDigits (by decide) (by decide) hc
    have htext : (Dialect.postgres.placeholder n).toList = '$' :: Nat.toDigits 10 n := by
      show ("$" ++ Nat.repr n).toList = _
      rw [String.toList_append, Nat.toList_repr]
      rfl
    refine reads_iff.2 ⟨.place (Nat.toDigits 10 n), [], [openPlace .postgres n], ?_, rfl, ?_, ?_⟩
    · have hstep : Mode.gap.step? .postgres '$' = some ([], .place []) := by decide
      rw [htext, scan?_cons hstep, scan?_place rfl hdigits]
      rfl
    · have hread := Text.Decimal.value?_toDigits n
      obtain ⟨c, cs, hcons⟩ := List.exists_cons_of_ne_nil (Nat.toDigits_ne_nil (b := 10) (n := n))
      rw [hcons] at hread ⊢
      simp [Mode.complete?, placeOf?, hread, openPlace]
    · intro c hc
      have hdigit : c.isDigit = false := eq_false_of_separator (by decide) hc
      simp [Mode.continued?, hdigit]
  | mySql => exact show Reads .mySql "?".toList [.place none] by decide
  | sqlite => exact show Reads .sqlite "?".toList [.place none] by decide

/-- **A list is read item by item**, with what is read between them. -/
theorem reads_separated {ι : Type} {separator : String} {us : List Token} {items : List ι}
    {text : ι → String} {tokens : ι → List Token} (hs : Closed d separator.toList us)
    (hc : separator.toList.head?.any (· ∈ separators) = true)
    (h : ∀ i ∈ items, Reads d (text i).toList (tokens i)) :
    Reads d (Statement.separated separator (items.map text)).toList
      (us.intercalate (items.map tokens)) := by
  rw [Statement.separated, String.toList_intercalate, List.map_map]
  induction items with
  | nil => exact Closed.reads rfl
  | cons i items ih =>
    obtain ⟨hi, hitems⟩ := List.forall_mem_cons.1 h
    cases items with
    | nil => simpa [List.intercalate] using hi
    | cons j items =>
      have hrest := ih hitems
      simp only [List.map_cons, Function.comp_apply, List.intercalate_cons_cons] at hrest ⊢
      exact (hi.append_closed hs hc).append_reads hrest

/-! ## Statements -/

/-- Groups of words with commas between them. -/
def listed (groups : List (List Token)) : List Token := [Token.mark ','].intercalate groups

def Comparison.mark : Comparison → Char
  | equal => '='
  | below => '<'

namespace Statement

/-- Columns with the numbers of their open places, from the given one on. -/
def numbered {α : Type} (first : Nat) (columns : List α) : List (α × Nat) :=
  columns.zip (List.range' first columns.length)

def columnTokens (columns : List Column) : List Token :=
  listed (columns.map fun c => [.word c.text])

def assignmentTokens (d : Dialect) (first : Nat) (columns : List Column) : List Token :=
  listed ((numbered first columns).map fun x => [.word x.1.text, .mark '=', openPlace d x.2])

def conditionTokens (d : Dialect) (first : Nat) (conditions : List Condition) : List Token :=
  [Token.word "AND"].intercalate ((numbered first conditions).map fun x =>
    [.word x.1.column.text, .mark x.1.comparison.mark, openPlace d x.2])

/-- The words of each definition of a column. -/
def definitionTokens (d : Dialect) : List (List Token) :=
  let words (ws : List String) : List Token := ws.map .word
  let id := match d with
    | .postgres => words ["id", "BIGSERIAL", "PRIMARY", "KEY"]
    | .mySql => words ["id", "BIGINT", "AUTO_INCREMENT", "PRIMARY", "KEY"]
    | .sqlite => words ["id", "INTEGER", "PRIMARY", "KEY", "AUTOINCREMENT"]
  let text := match d with
    | .postgres | .mySql => [.word "VARCHAR", .mark '(', .number "255", .mark ')']
    | .sqlite => words ["TEXT"]
  [id, .word "name" :: text ++ words ["NOT", "NULL", "UNIQUE"],
    .word "owner_id" :: text ++ words ["NOT", "NULL"],
    words ["expired_at", "BIGINT", "NOT", "NULL"], words ["created_at", "BIGINT", "NOT", "NULL"],
    words ["updated_at", "BIGINT", "NOT", "NULL"]]

/-- What stands before the table. -/
def before : Statement → List Token
  | createTable => [.word "CREATE", .word "TABLE", .word "IF", .word "NOT", .word "EXISTS"]
  | insert _ => [.word "INSERT", .word "INTO"]
  | select columns _ _ => .word "SELECT" :: columnTokens columns ++ [.word "FROM"]
  | update _ _ => [.word "UPDATE"]
  | delete _ => [.word "DELETE", .word "FROM"]

/-- What stands behind the table. -/
def after (d : Dialect) : Statement → List Token
  | createTable => .mark '(' :: listed (definitionTokens d) ++ [.mark ')']
  | insert columns =>
    .mark '(' :: columnTokens columns ++ [.mark ')', .word "VALUES", .mark '('] ++
      listed ((List.range' 1 columns.length).map fun n => [openPlace d n]) ++ [.mark ')']
  | select _ conditions lock =>
    .word "WHERE" :: conditionTokens d 1 conditions ++
      if lock then [.word "FOR", .word "UPDATE"] else []
  | update columns conditions =>
    .word "SET" :: assignmentTokens d 1 columns ++
      .word "WHERE" :: conditionTokens d (1 + columns.length) conditions
  | delete conditions => .word "WHERE" :: conditionTokens d 1 conditions

/-- The words of the statement for a table. -/
def tokens (d : Dialect) (table : String) (s : Statement) : List Token :=
  s.before ++ .word table :: s.after d

theorem reads_columns (d : Dialect) (columns : List Column) :
    Reads d (separated ", " (columns.map Column.text)).toList (columnTokens columns) :=
  reads_separated (by cases d <;> decide) (by decide) fun c _ => reads_name (isName_column c)

theorem reads_placeholders (d : Dialect) (first count : Nat) :
    Reads d (separated ", " (placeholders d first count)).toList
      (listed ((List.range' first count).map fun n => [openPlace d n])) :=
  reads_separated (by cases d <;> decide) (by decide) fun n _ => reads_placeholder d n

theorem zipWith_placeholders {α : Type} (f : α → String → String) (d : Dialect) (first : Nat)
    (columns : List α) : columns.zipWith f (placeholders d first columns.length) =
      (numbered first columns).map fun x => f x.1 (d.placeholder x.2) := by
  rw [placeholders, List.zipWith_map_right, numbered, ← List.map_uncurry_zip_eq_zipWith]
  rfl

theorem reads_triple (d : Dialect) (c : Column) {sign : String} {t : Token} (n : Nat)
    (hsign : Closed d sign.toList [t]) (hc : sign.toList.head?.any (· ∈ separators) = true) :
    Reads d (c.text ++ sign ++ d.placeholder n).toList [.word c.text, t, openPlace d n] := by
  rw [String.toList_append, String.toList_append]
  exact ((reads_name (isName_column c)).append_closed hsign hc).append_reads (reads_placeholder d n)

theorem reads_assignments (d : Dialect) (first : Nat) (columns : List Column) :
    Reads d (assignments d first columns).toList (assignmentTokens d first columns) := by
  rw [assignments, zipWith_placeholders]
  exact reads_separated (by cases d <;> decide) (by decide) fun x _ =>
    reads_triple d x.1 x.2 (by cases d <;> decide) (by decide)

theorem reads_conditions (d : Dialect) (first : Nat) (conditions : List Condition) :
    Reads d (conjunction d first conditions).toList (conditionTokens d first conditions) := by
  rw [conjunction, zipWith_placeholders]
  refine reads_separated (by cases d <;> decide) (by decide) fun x _ => ?_
  obtain ⟨⟨column, comparison⟩, n⟩ := x
  have hsign : Closed d (" " ++ comparison.text ++ " ").toList [.mark comparison.mark] := by
    cases d <;> cases comparison <;> decide
  have hpiece : column.text ++ " " ++ comparison.text ++ " " ++ d.placeholder n =
      column.text ++ (" " ++ comparison.text ++ " ") ++ d.placeholder n := by
    simp only [String.append_assoc]
  rw [hpiece]
  exact reads_triple d column n hsign (by cases comparison <;> decide)

theorem reads_definitions (d : Dialect) :
    Reads d (separated ", " (definitions d)).toList (listed (definitionTokens d)) := by
  have hsplit : definitions d = ((definitions d).zip (definitionTokens d)).map Prod.fst ∧
      definitionTokens d = ((definitions d).zip (definitionTokens d)).map Prod.snd := by
    cases d <;> exact ⟨rfl, rfl⟩
  rw [hsplit.1, hsplit.2]
  exact reads_separated (by cases d <;> decide) (by decide) (by cases d <;> decide +kernel)

section Parts

variable (hname : Reads d table.toList [.word table])
include hname

theorem reads_createTable :
    Reads d (createTable.text d table).toList (createTable.tokens d table) := by
  have hhead : Closed d "CREATE TABLE IF NOT EXISTS ".toList createTable.before := by
    cases d <;> decide
  have hopen : Closed d " (".toList [.mark '('] := by cases d <;> decide
  have hclose : Closed d ")".toList [.mark ')'] := by cases d <;> decide
  have hread := (((hhead.append_reads hname).append_closed hopen (by decide)).append_reads
    (reads_definitions d)).append_closed hclose (by decide)
  show Reads d ("CREATE TABLE IF NOT EXISTS " ++ table ++ " (" ++ separated ", " (definitions d) ++
    ")").toList _
  simp only [String.toList_append]
  exact hread.reads

theorem reads_insert (columns : List Column) :
    Reads d ((Statement.insert columns).text d table).toList
      ((Statement.insert columns).tokens d table) := by
  have hhead : Closed d "INSERT INTO ".toList [.word "INSERT", .word "INTO"] := by
    cases d <;> decide
  have hopen : Closed d " (".toList [.mark '('] := by cases d <;> decide
  have hvalues : Closed d ") VALUES (".toList [.mark ')', .word "VALUES", .mark '('] := by
    cases d <;> decide
  have hclose : Closed d ")".toList [.mark ')'] := by cases d <;> decide
  have hcolumns := (((hhead.append_reads hname).append_closed hopen (by decide)).append_reads
    (reads_columns d columns)).append_closed hvalues (by decide)
  have hread := (hcolumns.append_reads (reads_placeholders d 1 columns.length)).append_closed
    hclose (by decide)
  show Reads d ("INSERT INTO " ++ table ++ " (" ++ separated ", " (columns.map Column.text) ++
    ") VALUES (" ++ separated ", " (placeholders d 1 columns.length) ++ ")").toList _
  simp only [String.toList_append]
  convert hread.reads using 1
  simp [tokens, before, after]

theorem reads_select (columns : List Column) (conditions : List Condition) (lock : Bool) :
    Reads d ((Statement.select columns conditions lock).text d table).toList
      ((Statement.select columns conditions lock).tokens d table) := by
  have hhead : Closed d "SELECT ".toList [.word "SELECT"] := by cases d <;> decide
  have hfrom : Closed d " FROM ".toList [.word "FROM"] := by cases d <;> decide
  have hwhere : Closed d " WHERE ".toList [.word "WHERE"] := by cases d <;> decide
  have htable := (((hhead.append_reads (reads_columns d columns)).append_closed hfrom
    (by decide)).append_reads hname).append_closed hwhere (by decide)
  have hread := htable.append_reads (reads_conditions d 1 conditions)
  have hfor : Closed d " FOR ".toList [.word "FOR"] := by cases d <;> decide
  have hlock : Reads d "UPDATE".toList [.word "UPDATE"] := by cases d <;> decide
  cases lock with
  | false =>
    show Reads d ("SELECT " ++ separated ", " (columns.map Column.text) ++ " FROM " ++ table ++
      " WHERE " ++ conjunction d 1 conditions ++ "").toList _
    simp only [String.toList_append]
    convert hread using 1
    · exact List.append_nil _
    · simp [tokens, before, after]
  | true =>
    show Reads d ("SELECT " ++ separated ", " (columns.map Column.text) ++ " FROM " ++ table ++
      " WHERE " ++ conjunction d 1 conditions ++ (" FOR " ++ "UPDATE")).toList _
    simp only [String.toList_append]
    convert (hread.append_closed hfor (by decide)).append_reads hlock using 1
    · simp only [List.append_assoc]
    · simp [tokens, before, after]

theorem reads_update (columns : List Column) (conditions : List Condition) :
    Reads d ((Statement.update columns conditions).text d table).toList
      ((Statement.update columns conditions).tokens d table) := by
  have hhead : Closed d "UPDATE ".toList [.word "UPDATE"] := by cases d <;> decide
  have hset : Closed d " SET ".toList [.word "SET"] := by cases d <;> decide
  have hwhere : Closed d " WHERE ".toList [.word "WHERE"] := by cases d <;> decide
  have hsets := (((hhead.append_reads hname).append_closed hset (by decide)).append_reads
    (reads_assignments d 1 columns)).append_closed hwhere (by decide)
  have hread := hsets.append_reads (reads_conditions d (1 + columns.length) conditions)
  show Reads d ("UPDATE " ++ table ++ " SET " ++ assignments d 1 columns ++ " WHERE " ++
    conjunction d (1 + columns.length) conditions).toList _
  simp only [String.toList_append]
  convert hread using 1
  simp [tokens, before, after]

theorem reads_delete (conditions : List Condition) :
    Reads d ((Statement.delete conditions).text d table).toList
      ((Statement.delete conditions).tokens d table) := by
  have hhead : Closed d "DELETE FROM ".toList [.word "DELETE", .word "FROM"] := by
    cases d <;> decide
  have hwhere : Closed d " WHERE ".toList [.word "WHERE"] := by cases d <;> decide
  have hread := ((hhead.append_reads hname).append_closed hwhere (by decide)).append_reads
    (reads_conditions d 1 conditions)
  show Reads d ("DELETE FROM " ++ table ++ " WHERE " ++ conjunction d 1 conditions).toList _
  simp only [String.toList_append]
  exact hread

end Parts

/-- **A statement is read as its words**, with the table as one of them, whatever the name of the
table, if it is accepted. -/
theorem lex?_text (h : tableFault? table = none) (d : Dialect) (s : Statement) :
    lex? d (s.text d table) = some (s.tokens d table) := by
  have hname : Reads d table.toList [.word table] := reads_name (isName_of_tableFault? h)
  apply lex?_of_reads
  cases s with
  | createTable => exact reads_createTable hname
  | insert columns => exact reads_insert hname columns
  | select columns conditions lock => exact reads_select hname columns conditions lock
  | update columns conditions => exact reads_update hname columns conditions
  | delete conditions => exact reads_delete hname conditions

/-- A name that is refused can turn the rest of a statement into a comment. -/
example : lex? .sqlite (deleteRow.text .sqlite "t --") =
    some [.word "DELETE", .word "FROM", .word "t"] := by decide +kernel

end Statement

end LeaseLock.Sql
