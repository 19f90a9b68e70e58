import LeaseLock.Sql.Database
import LeaseLock.Text.Pieces
import LeaseLock.Url.Percent

/-!
# The embedded engine

An engine without a server, which keeps a database in a file or in memory. No file is there yet, and
none can be made.

**Table names** (`refusesTable`). The engine refuses its reserved words and the names that it
keeps for itself, whatever the case of their letters.

**Names of databases** (`Place.parse?`). A name may be an address of the scheme `file`, with a name
and options in it. Options can narrow what the database may be used for, but not widen it.

**Opening** (`opens`). A database in memory can always be opened, and so can one without a name,
which is in a file of its own until it is closed. Any other would have to be there already, unless
the file system is a pretended one.
-/

namespace LeaseLock.Sql.Engine

/-! ## Tables -/

/-- The words that are no names. -/
def reservedWords : List String :=
  ["add", "all", "alter", "and", "as", "autoincrement", "between", "case", "check", "collate",
    "commit", "constraint", "create", "default", "deferrable", "delete", "distinct", "drop",
    "else", "escape", "except", "exists", "foreign", "from", "group", "having", "if", "in", "index",
    "insert", "intersect", "into", "is", "isnull", "join", "limit", "not", "nothing", "notnull",
    "null", "on", "or", "order", "primary", "references", "returning", "select", "set", "table",
    "then", "to", "transaction", "union", "unique", "update", "using", "values", "when", "where"]

/-- The engine makes no table of that name. -/
def refusesTable (table : String) : Bool :=
  let lower := table.toList.map Char.toLower
  reservedWords.contains (String.ofList lower) || "sqlite_".toList.isPrefixOf lower

/-! ## Databases -/

/-- A row of bytes. -/
abbrev Bytes := List UInt8

/-- The bytes of a word. -/
def word (s : String) : Bytes := Url.bytes s.toList

/-- What a file may be used for. -/
inductive Access where
  | readOnly
  | readWrite
  /-- For reading and writing, even if it has to be made first. -/
  | create
deriving DecidableEq, Repr

/-- How a database is to be opened. -/
structure Mode where
  /-- What it may be used for, where that matters. -/
  access : Option Access
  memory : Bool
deriving DecidableEq, Repr

namespace Mode

/-- How much an access allows. -/
def level : Option Access → Nat
  | none => 0
  | some .readOnly => 1
  | some .readWrite => 2
  | some .create => 6

/-- The most that a mode can be changed to; one for memory can be changed to any other. -/
def bound (m : Mode) : Nat := if m.memory then 128 + level m.access else level m.access

/-- The mode that a word asks for. -/
def named? (name : Bytes) : Option Mode :=
  if name = word "ro" then some ⟨some .readOnly, false⟩
  else if name = word "rw" then some ⟨some .readWrite, false⟩
  else if name = word "rwc" then some ⟨some .create, false⟩
  else if name = word "memory" then some ⟨none, true⟩
  else none

/-- The mode after a word asked for another. -/
def change? (m : Mode) (name : Bytes) : Option Mode :=
  (named? name).filter fun new => level new.access ≤ m.bound

end Mode

/-- What a name of a database says. -/
structure Place where
  name : Bytes
  /-- The options, each a name and a value. -/
  options : List (Bytes × Bytes) := []
deriving DecidableEq, Repr

/-- A part of a name, which ends before an encoded zero. -/
def part (encoded : Bytes) : Bytes := (Url.decodedBytes encoded).takeWhile (· != 0)

/-- The options that a query gives; one without a name does not count. -/
def optionsOf (query : Bytes) : List (Bytes × Bytes) :=
  let pairs := (Text.pieces (· == '&'.toUInt8) query).map fun pair =>
    let (name, value) := Text.cut (· == '='.toUInt8) pair
    (part name, part value)
  pairs.filter fun (name, _) => name ≠ []

/-- Reads a name of a database. An address may name the local host, and no other. -/
def Place.parse? (text : Bytes) : Option Place :=
  if !(word "file:").isPrefixOf text then some ⟨text, []⟩
  else
    let rest := text.drop 5
    let local? :=
      if (word "//").isPrefixOf rest then
        let host := (rest.drop 2).takeWhile (· != '/'.toUInt8)
        if host = [] ∨ host = word "localhost" then some (rest.drop (2 + host.length)) else none
      else some rest
    local?.map fun rest =>
      let (name, query) := Text.cut (· == '?'.toUInt8) (rest.takeWhile (· != '#'.toUInt8))
      ⟨part name, optionsOf query⟩

/-- What the options make of an opening. -/
structure Opening where
  mode : Mode
  /-- The file system, if it is not the usual one. -/
  fileSystem : Option Bytes := none
deriving DecidableEq, Repr

/-- Takes an option into account, unless it is refused. An unknown option says nothing. -/
def Opening.adjust? (o : Opening) (option : Bytes × Bytes) : Option Opening :=
  let (name, value) := option
  if name = word "vfs" then some { o with fileSystem := some value }
  else if name = word "cache" then
    if value = word "shared" ∨ value = word "private" then some o else none
  else if name = word "mode" then (o.mode.change? value).map fun mode => { o with mode }
  else some o

/-- The file systems with files outside the engine. -/
def fileSystems : List Bytes := ["unix", "unix-none", "unix-dotfile", "unix-excl"].map word

/-- The file system in which every file is there as soon as it is opened. -/
def pretended : Bytes := word "memdb"

/-- The option says yes. -/
def isYes (value : Bytes) : Bool := (["1", "true", "yes", "on"].map word).contains value

/-- A database with that name can be opened, and tables can be made in it. -/
def opens (text : Bytes) (mode : Mode) : Bool :=
  match Place.parse? text with
  | none => false
  | some place => match place.options.foldlM Opening.adjust? { mode } with
    | none => false
    | some o =>
      let known := o.fileSystem.all fun s => fileSystems.contains s || s == pretended
      let there := o.mode.memory || place.name == word ":memory:" || place.name == []
        || o.fileSystem == some pretended && !(place.options.lookup (word "immutable")).any isYes
      known && there && o.mode.access != some .readOnly

end LeaseLock.Sql.Engine
