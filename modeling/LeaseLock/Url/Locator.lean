import LeaseLock.Url.Ipv6
import LeaseLock.Url.Path

/-!
# Locators

**Locators** (`Locator`). An address with a scheme other than those of the web: an authority, which
may be missing, a path, a query and a fragment.

**Reading** (`Locator.parse?`). Two slashes behind the scheme announce the authority: credentials up
to the last at sign, a host, and a port. Credentials need a host, and so does a port. The path is
followed from the root if it begins with a slash; otherwise it is taken as it is.

**Writing** (`Locator.text`). What may not stand in its part comes back percent-encoded, and what is
empty is left out.
-/

namespace LeaseLock

/-- Who is where. -/
structure Locator.Authority where
  user : String
  password : String
  host : String
  port : Option Nat
deriving DecidableEq, Repr

/-- An address of any scheme but those of the web. -/
structure Locator where
  /-- The scheme, in small letters. -/
  scheme : String
  authority : Option Locator.Authority
  path : String
  query : Option String
  fragment : Option String
deriving DecidableEq, Repr

namespace Locator

open Url

/-- A letter, followed by letters, digits and a few marks. -/
def isScheme (cs : List Char) : Bool :=
  (cs.head?.any Char.isAlpha) && cs.all fun c => c.isAlphanum || "+-.".toList.contains c

/-- The character can stand in a host that is not given by number. -/
def inHost (c : Char) : Bool := !("\x00\t\n\r #/:<>?@[\\]^|".toList.contains c)

/-- The characters are a host: an IPv6 address in brackets, or a name, which may be empty. -/
def isHost : List Char → Bool
  | '[' :: cs => cs.getLast? == some ']' && isIpv6 cs.dropLast
  | cs => cs.all inHost

/-- The credentials before the last at sign, if there is one, and what stands behind it. -/
def cutCredentials (cs : List Char) : Option (List Char) × List Char :=
  let behind := (cs.reverse.takeWhile (· != '@')).reverse
  if behind.length = cs.length then (none, cs)
  else (some (cs.take (cs.length - behind.length - 1)), behind)

/-- The host, up to a colon outside brackets, and what stands from there on. -/
def cutHost (inBrackets : Bool) : List Char → List Char × List Char
  | [] => ([], [])
  | c :: cs =>
    if c == ':' && !inBrackets then ([], c :: cs)
    else
      let (host, rest) := cutHost (c == '[' || inBrackets && c != ']') cs
      (c :: host, rest)

/-- The port that a colon announces, and what stands behind it: nothing, or a backslash first. -/
def cutPort? : List Char → Option (Option Nat × List Char)
  | ':' :: cs =>
    let digits := cs.takeWhile Char.isDigit
    let rest := cs.drop digits.length
    if rest.head?.any (· != '\\') then none
    else match Text.Decimal.value? digits with
      | some port => if port < 65536 then some (some port, rest) else none
      | none => some (none, rest)
  | rest => some (none, rest)

/-- The authority that stands in characters, and what is left of them. More characters follow, or
none do. -/
def authority? (cs : List Char) (more : Bool) : Option (Authority × List Char) := do
  let (credentials, cs) := cutCredentials cs
  let (user, password) := Text.cut (· == ':') (credentials.getD [])
  let (host, rest) := cutHost false cs
  let (port, left) ← cutPort? rest
  let needsHost := !user.isEmpty || !password.isEmpty || !rest.isEmpty
    || credentials == some [] && more
  if !isHost host || host.isEmpty && needsHost then none
  else
    let text (plain : Char → Bool) (cs : List Char) : String := String.ofList (encoded plain cs)
    return (⟨text inCredentials user, text inCredentials password, text inOpaque host, port⟩, left)

/-- The path that stands in characters behind an authority, or without one. -/
def pathOf (behindAuthority : Bool) (cs : List Char) : String :=
  match cs with
  | [] => ""
  | '/' :: cs => resolve (Text.pieces (· == '/') cs)
  | cs =>
    if behindAuthority then resolve (Text.pieces (· == '/') cs)
    else String.ofList (encoded inOpaque cs)

/-- Reads a locator. -/
def parse? (s : String) : Option Locator := do
  let (scheme, body) := Text.cutAt (· == ':') (cleaned s)
  let (body, fragment) := Text.cutAt (· == '#') (← body)
  let (place, query) := Text.cutAt (· == '?') body
  let (authority, path) ← match place with
    | '/' :: '/' :: place => do
      let zone := place.takeWhile (· != '/')
      let path := place.drop zone.length
      let (authority, left) ← authority? zone (!path.isEmpty || query.isSome || fragment.isSome)
      some (some authority, pathOf true (left ++ path))
    | place => some (none, pathOf false place)
  if isScheme scheme then
    return {
      scheme := String.ofList (scheme.map Char.toLower)
      authority
      path
      query := query.map fun cs => String.ofList (encoded inQuery cs)
      fragment := fragment.map fun cs => String.ofList (encoded inFragment cs) }
  else none

/-- The authority as it is written. -/
def Authority.text (a : Authority) : String :=
  let password := if a.password = "" then "" else ":" ++ a.password
  let credentials := if a.user = "" ∧ a.password = "" then "" else a.user ++ password ++ "@"
  credentials ++ a.host ++ match a.port with
    | some port => ":" ++ toString port
    | none => ""

/-- The locator as it is written. A path that begins with two slashes must not look like an
authority. -/
def text (l : Locator) : String :=
  let place := match l.authority with
    | some a => "//" ++ a.text ++ l.path
    | none => if "//".toList.isPrefixOf l.path.toList then "/." ++ l.path else l.path
  let announced (mark : String) : Option String → String
    | some part => mark ++ part
    | none => ""
  l.scheme ++ ":" ++ place ++ announced "?" l.query ++ announced "#" l.fragment

end Locator

end LeaseLock
