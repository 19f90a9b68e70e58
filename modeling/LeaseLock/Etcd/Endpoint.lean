import LeaseLock.Url.Percent

/-!
# Endpoints

**Endpoints** (`isEndpoint`). The address of a server without encryption: an authority, and
perhaps a path and a query. The scheme may be left out. A fragment does not count.

**Authorities** (`isAuthority`). They are read character by character. Colons and percent signs
count only where they belong to the host: those before an at sign are credentials, and those in
brackets the number of a host.
-/

namespace LeaseLock.Etcd

/-- The only scheme there is. -/
def scheme : List Char := "http://".toList

/-- The scheme of servers with encryption. -/
def secureScheme : List Char := "https://".toList

/-- The longest address in bytes. -/
def maxLength : Nat := 65534

/-- What an authority has shown so far. -/
structure Glance where
  /-- How many colons the host has. -/
  colons : Nat := 0
  /-- The host has a percent sign. -/
  percent : Bool := false
  /-- There was an opening bracket. -/
  opened : Bool := false
  /-- There was a closing bracket. -/
  closed : Bool := false
  /-- An at sign came last. -/
  atSign : Bool := false
deriving DecidableEq, Repr

/-- The character can stand in an authority. -/
def inAuthority (c : Char) : Bool := c.isAlphanum || "!$&'()*+,-.:;=@[]_~".toList.contains c

/-- Takes the next character of an authority, unless it is out of place. -/
def Glance.next? (g : Glance) (c : Char) : Option Glance :=
  let g' := { g with atSign := false }
  match c with
  | ':' => if g.colons < 8 then some { g' with colons := g.colons + 1 } else none
  | '%' => some { g' with percent := true }
  | '@' => some { g with colons := 0, percent := false, atSign := true }
  | '[' => if g.percent || g.opened then none else some { g' with opened := true }
  | ']' =>
    if g.opened && !g.closed then some { g' with closed := true, colons := 0, percent := false }
    else none
  | c => if inAuthority c then some g' else none

/-- The characters are an authority. -/
def isAuthority (cs : List Char) : Bool :=
  !cs.isEmpty && (cs.foldlM Glance.next? {}).any fun g =>
    g.opened == g.closed && g.colons ≤ 1 && !g.atSign && !g.percent

/-- The character can stand in a path. -/
def inPath (c : Char) : Bool := 32 < c.toNat && !("<>\x60".toList.contains c)

/-- The character can stand in a query. -/
def inQuery (c : Char) : Bool := 32 < c.toNat && !("\"<>".toList.contains c)

/-- The text is the address of a server. -/
def isEndpoint (address : String) : Bool :=
  let cs := address.toList
  let cs := if scheme.isPrefixOf cs then cs.drop scheme.length else cs
  let authority := cs.takeWhile fun c => c != '/' && c != '?' && c != '#'
  let rest := (cs.drop authority.length).takeWhile (· != '#')
  let path := rest.takeWhile (· != '?')
  let query := rest.drop path.length
  !secureScheme.isPrefixOf address.toList && (Url.bytes (scheme ++ cs)).length ≤ maxLength
    && isAuthority authority && path.all inPath && query.all inQuery

end LeaseLock.Etcd
