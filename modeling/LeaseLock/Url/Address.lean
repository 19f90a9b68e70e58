import LeaseLock.Text.Decimal
import LeaseLock.Url.Form
import LeaseLock.Url.Locator

/-!
# Web addresses

**Addresses** (`Url`). Of an address of the web, the authority, the path and the query matter; a
fragment is dropped.

**Authorities** (`Url.isAuthority`). A host has its number in brackets or a name, credentials may
stand before it and a port behind it. Names are taken as they are written: percent signs cannot
stand in them, and a name that looks like an IPv4 address is not checked to be one.

**Reading** (`Url.parse?`). A backslash counts as a slash, and the path is followed from the root.

**Parameters** (`Url.withParameter`). A name and a value are added to the query that is there.
-/

namespace LeaseLock

/-- An address of the web. -/
structure Url where
  authority : String
  /-- The path, which begins with a slash. -/
  path : String
  query : Option String
deriving DecidableEq, Repr

namespace Url

/-- What separates the segments of a path. -/
def isSlash (c : Char) : Bool := c == '/' || c == '\\'

/-- The character can stand in the name of a host. -/
def inHost (c : Char) : Bool := 127 < c.toNat || isVisible c && !("<>@[]^|%".toList.contains c)

/-- The characters are a host: an IPv6 address in brackets, or a name. -/
def isHost : List Char → Bool
  | '[' :: cs => cs.getLast? == some ']' && isIpv6 cs.dropLast
  | cs => !cs.isEmpty && cs.all inHost

/-- The characters are a host, perhaps with credentials and a port. -/
def isAuthority (cs : List Char) : Bool :=
  let (host, rest) := Locator.cutHost false (Locator.cutCredentials cs).2
  let port := rest.drop 1
  isHost host && (port.isEmpty || (Text.Decimal.value? port).any (· < 65536))

/-- Reads an address. -/
def parse? (s : String) : Option Url :=
  let cs := cleaned s
  let scheme := cs.takeWhile (· != ':')
  let rest := ((cs.drop scheme.length).drop 1).dropWhile isSlash
  let authority := rest.takeWhile fun c => !isSlash c && c != '?' && c != '#'
  let rest := (rest.drop authority.length).takeWhile (· != '#')
  let path := rest.takeWhile (· != '?')
  let query := match rest.drop path.length with
    | _ :: query => some (String.ofList (encoded inWebQuery query))
    | [] => none
  if ["http", "https"].contains (String.ofList (scheme.map Char.toLower)) && isAuthority authority
  then some ⟨String.ofList authority, resolve (Text.pieces isSlash (path.drop 1)), query⟩
  else none

/-- The address with a further parameter. -/
def withParameter (u : Url) (name value : String) : Url :=
  let pair := formEncoded name ++ "=" ++ formEncoded value
  { u with query := match u.query with
    | none => some pair
    | some "" => some pair
    | some query => some (query ++ "&" ++ pair) }

/-- What a server is asked for: the path and the query. -/
def target (u : Url) : String :=
  u.path ++ match u.query with
    | some query => "?" ++ query
    | none => ""

end Url

end LeaseLock
