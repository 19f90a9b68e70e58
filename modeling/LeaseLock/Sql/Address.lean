import LeaseLock.Sql.Engine
import LeaseLock.Url.Form
import LeaseLock.Url.Locator

/-!
# Addresses of databases

**Addresses** (`Address`). The scheme `sqlite`, a database and, after a question mark, parameters.
The database is a name for the embedded engine, or `:memory:` for one in memory. The scheme may be
written more than once, with two slashes and then without.

**Parameters** (`Settings`). They say whether the database may be written and made, whether it is
kept in memory, and on which file system. A parameter that is not known is refused.

**Connections** (`Address.connections`). A database in memory lives as long as its connection, and
has just one.
-/

namespace LeaseLock.Sql

/-- Where a database is kept, in the words of whoever asks for it. -/
structure Address where
  /-- The words. -/
  text : String
deriving DecidableEq, Repr

/-- What the parameters of an address ask for. -/
structure Settings where
  /-- The database is not to be written. -/
  readOnly : Bool := false
  /-- The database is made if it is not there. -/
  create : Bool := false
  /-- The database is kept in memory. -/
  memory : Bool := false
  /-- Nobody else writes the database either. -/
  immutable : Bool := false
  /-- The file system, if it is not the usual one. -/
  fileSystem : Option String := none
deriving DecidableEq, Repr

namespace Settings

/-- Takes a parameter into account, unless it is refused. -/
def adjust? (s : Settings) : String × String → Option Settings
  | ("mode", "ro") => some { s with readOnly := true }
  | ("mode", "rw") => some s
  | ("mode", "rwc") => some { s with create := true }
  | ("mode", "memory") => some { s with memory := true }
  | ("cache", "private") | ("cache", "shared") => some s
  | ("immutable", "true") | ("immutable", "1") => some { s with immutable := true }
  | ("immutable", "false") | ("immutable", "0") => some { s with immutable := false }
  | ("vfs", name) => some { s with fileSystem := some name }
  | _ => none

/-- How the engine is to open the database. Whoever may only read cannot make anything. -/
def mode (s : Settings) : Engine.Mode :=
  let access : Engine.Access :=
    if s.readOnly then .readOnly else if s.create then .create else .readWrite
  ⟨some access, s.memory⟩

/-- The parameters that the engine has to be told of in the name of the database. -/
def told (s : Settings) : List String :=
  (if s.immutable then ["immutable=true"] else [])
    ++ s.fileSystem.toList.map fun name => "vfs=" ++ Url.formEncoded name

/-- The name of the database in the words of the engine. A name with a zero in it cannot be passed
on unless it is encoded. -/
def name? (s : Settings) (database : String) : Option String :=
  match s.told with
  | [] => if database.toList.contains '\x00' then none else some database
  | told =>
    let name := String.ofList (Url.encoded Char.isAlphanum database.toList)
    some ("file:" ++ name ++ "?" ++ "&".intercalate told)

end Settings

namespace Address

/-- The address names a database in memory, which a second connection would not see. -/
def isPrivate (a : Address) : Bool :=
  "sqlite:".toList.isPrefixOf a.text.toList
    && (Text.occurs ":memory:" a.text || Text.occurs "mode=memory" a.text)

/-- How many connections may be open to the database at a time. -/
def connections (a : Address) : Nat := if a.isPrivate then 1 else 10

/-- What is left when a word is taken away at the front as often as it stands there. -/
def without (word : List Char) (cs : List Char) : List Char :=
  if _h : word ≠ [] ∧ word.isPrefixOf cs then without word (cs.drop word.length) else cs
termination_by cs.length
decreasing_by
  obtain ⟨hne, hpre⟩ := _h
  have hle : word.length ≤ cs.length := (List.isPrefixOf_iff_prefix.1 hpre).length_le
  have hpos : 0 < word.length := List.length_pos_iff.2 hne
  simp only [List.length_drop]
  omega

/-- The database and the parameters, if the address can be read. -/
def parts? (a : Address) : Option (List Char × List Char) := do
  let l ← Locator.parse? a.text
  if l.scheme ≠ "sqlite" then none
  else
    let body := without "sqlite:".toList (without "sqlite://".toList l.text.toList)
    return Text.cut (· == '?') body

/-- What the engine is asked for, if the address can be read. -/
def request? (a : Address) : Option (String × Engine.Mode) := do
  let (database, parameters) ← a.parts?
  let isMemory := database == ":memory:".toList
  let database ← Url.decoded? database
  let settings ← (← Url.formPairs? parameters).foldlM Settings.adjust? { memory := isMemory }
  return (← settings.name? database, settings.mode)

/-- The database can be opened, and tables can be made in it. -/
def opens (a : Address) : Bool :=
  a.request?.any fun (name, mode) => Engine.opens (Url.bytes name.toList) mode

end Address

end LeaseLock.Sql
