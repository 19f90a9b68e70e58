import LeaseLock.Service
import LeaseLock.Talk

/-!
# Services behind a server

**Adapters** (`Adapter`). How one kind of service carries out the three operations: as a talk with
a server. An adapter may keep a token of its current acquisition, which every operation sees and
leaves as it was, replaces or removes.

**The service** (`Remote`). A server, and for every locker an adapter with its token. A talk takes
no time: it ends on the spot, or waits for an answer that never comes. A caller that gives up such
a talk leaves the debts behind, and they are told to the server.

**Prompted servers** (`Prompter`). A server that gives prepared answers, one per question, and
keeps what it was asked.
-/

namespace LeaseLock

/-- What an operation of an adapter needs to know: the options that its locker was made with, those
of the call, the token of the current acquisition, and the numbers of calls and of attempts made
before. -/
structure Errand (τ : Type) where
  own : Options
  options : Options
  token : Option τ
  calls : Nat
  attempts : Nat

/-- The three operations as talks that end with the answer and the token to keep. -/
abbrev Adapter (Q A τ : Type) := Errand τ → Op → Talk Q A (Option τ × Answer)

/-- A server with the adapters of all lockers. -/
structure Remote (S Q A τ : Type) where
  server : S
  /-- How the operations are carried out. -/
  adapter : Adapter Q A τ
  /-- The tokens of the lockers, by number. -/
  tokens : List (Nat × τ) := []
  /-- The calls that wait for an answer that never comes, with what they owe. -/
  waiting : List (Site × List Q) := []
  calls : Nat := 0
  attempts : Nat := 0

namespace Remote

variable {S Q A τ : Type}

/-- The token that a locker's adapter keeps. -/
def token? (r : Remote S Q A τ) (home : Nat) : Option τ := r.tokens.lookup home

/-- Lets a locker's adapter keep a token, or none. -/
def keep (r : Remote S Q A τ) (home : Nat) (token : Option τ) : Remote S Q A τ :=
  let others := r.tokens.filter fun p => p.1 ≠ home
  { r with tokens := match token with
    | some t => (home, t) :: others
    | none => others }

variable [Server S Q A]

/-- Holds the talk of one call. -/
def call (r : Remote S Q A τ) (site : Site) (o : Options) (op : Op) :
    Remote S Q A τ × Reception :=
  let errand : Errand τ := ⟨site.own, o, r.token? site.home, r.calls, r.attempts⟩
  let r := { r with
    calls := r.calls + 1
    attempts := if op = Op.acquire then r.attempts + 1 else r.attempts }
  match (r.adapter errand op).run r.server with
  | (server, .ok (token, a)) => ({ r with server }.keep site.home token, .answered a)
  | (server, .error owed) => ({ r with server, waiting := (site, owed) :: r.waiting }, .silent)

/-- A call that waited is given up, and its debts are told. -/
def abandon (r : Remote S Q A τ) (site : Site) : Remote S Q A τ :=
  match r.waiting.lookup site with
  | some owed =>
    { r with
      server := Talk.tellAll r.server owed
      waiting := r.waiting.filter fun p => p.1 ≠ site }
  | none => r

/-- Holds a talk that belongs to no locker. -/
def converse {α : Type} (r : Remote S Q A τ) (t : Talk Q A α) :
    Remote S Q A τ × Except (List Q) α :=
  let (server, result) := t.run r.server
  ({ r with server }, result)

instance : Service (Remote S Q A τ) where
  begin r site o op _ := r.call site o op
  cut r site _ _ := r.abandon site

end Remote

/-- A server with prepared answers. -/
structure Prompter (Q A : Type) where
  /-- The answers to come, each of which may look at its question; none never comes. -/
  answers : List (Q → Option A) := []
  /-- The answer when no prepared one is left. -/
  final : A
  /-- The questions so far, oldest first. -/
  asked : List Q := []

namespace Prompter

variable {Q A : Type}

/-- Takes a question, and gives the next answer. -/
def answer (p : Prompter Q A) (q : Q) : Prompter Q A × Option A :=
  let p' := { p with asked := p.asked ++ [q], answers := p.answers.tail }
  match p.answers with
  | a :: _ => (p', a q)
  | [] => (p', some p.final)

instance : Server (Prompter Q A) Q A := ⟨Prompter.answer⟩

end Prompter

end LeaseLock
