import LeaseLock.Consul.Entry
import LeaseLock.Http
import LeaseLock.Json.Written
import LeaseLock.Talk

/-!
# Talking to a Consul agent

**Questions** (`Question`). Sessions are created, renewed and destroyed. A key is acquired for a
session, read, or deleted if it has not changed since.

**Requests** (`Client.request?`). A question becomes a request to the agent's address. Names and
ids go into the address as they are, so what they hold can change its meaning.

**Agents** (`Agent`). A client in front of a web server: a question that cannot be sent fails.

**Calls.** The functions at the end ask one question each and read the reply.
-/

namespace LeaseLock.Consul

/-- What is asked of an agent. -/
inductive Question where
  /-- Create a session of that name that lives for some seconds without renewal. -/
  | openSession (name : String) (ttl : Nat)
  /-- Count a session's time to live from now. -/
  | keepSession (id : String)
  /-- End a session, which frees its keys. -/
  | closeSession (id : String)
  /-- Write a value to a key if no other session holds it. -/
  | acquire (key session value : String)
  /-- Read a key. -/
  | get (key : String)
  /-- Delete a key if its last change has that index. -/
  | deleteAt (key : String) (index : Nat)
deriving DecidableEq, Repr

/-- The address of an agent, and what it is to be told of who we are. -/
structure Client where
  /-- The address, without slashes at its end. -/
  baseUrl : String
  /-- What gives us access, if anything is needed. -/
  token : Option String := none
deriving DecidableEq, Repr

namespace Client

/-- The text without the slashes at its end. -/
def trimmed (url : String) : String :=
  String.ofList (url.toList.reverse.dropWhile (· == '/')).reverse

/-- The description of a session to create. -/
def sessionBody (name : String) (ttl : Nat) : String :=
  "\x7b\"Name\":" ++ Json.written name ++ ",\"TTL\":\"" ++ toString ttl
    ++ "s\",\"Behavior\":\"release\",\"LockDelay\":\"0s\"\x7d"

/-- A request to a path below the agent's address. -/
def request (c : Client) (method : Http.Method) (path : String)
    (parameter : Option (String × String)) (headers : List (String × String)) (body : String) :
    Option Http.Request := do
  let url ← Url.parse? (c.baseUrl ++ path)
  let url := match parameter with
    | some (name, value) => url.withParameter name value
    | none => url
  let access ← match c.token with
    | some token => (Http.headerValue? token).map fun value => [("X-Consul-Token", value)]
    | none => some []
  return { method, url, headers := access ++ headers, body }

/-- The request for a question, if it can be sent. -/
def request? (c : Client) : Question → Option Http.Request
  | .openSession name ttl =>
    c.request .put "/v1/session/create" none [("Content-Type", "application/json")]
      (sessionBody name ttl)
  | .keepSession id => c.request .put ("/v1/session/renew/" ++ id) none [] ""
  | .closeSession id => c.request .put ("/v1/session/destroy/" ++ id) none [] ""
  | .acquire key session value =>
    c.request .put ("/v1/kv/" ++ key) (some ("acquire", session)) [] value
  | .get key => c.request .get ("/v1/kv/" ++ key) none [] ""
  | .deleteAt key index =>
    c.request .delete ("/v1/kv/" ++ key) (some ("cas", toString index)) [] ""

end Client

/-- A client in front of a web server. -/
structure Agent (S : Type) where
  /-- How the agent is addressed. -/
  client : Client
  server : S

namespace Agent

variable {S : Type} [Server S Http.Request Http.Reply]

/-- Sends the request for a question. -/
def answer (a : Agent S) (q : Question) : Agent S × Option Http.Reply :=
  match a.client.request? q with
  | some r =>
    let (server, reply) := Server.answer a.server r
    ({ a with server }, reply)
  | none => (a, some (.failure "the request cannot be sent"))

instance : Server (Agent S) Question Http.Reply := ⟨answer⟩

end Agent

/-- A conversation with an agent. -/
abbrev Dialogue := Talk Question Http.Reply

/-- What reading a content gives, or the report that it is malformed. -/
def understood {α : Type} (what : String) : Option α → Except LockError α
  | some a => .ok a
  | none => .error (.garbled ("malformed " ++ what ++ " response: unexpected content"))

/-- Creates a session and tells its id. -/
def openSession (name : String) (ttl : Nat) : Dialogue (Except LockError String) := do
  let reply ← Talk.question (.openSession name ttl)
  return reply.content.bind fun body => understood "session" (sessionId? body)

/-- Renews a session; says whether it still exists. -/
def keepSession (id : String) : Dialogue (Except LockError Bool) := do
  let reply ← Talk.question (.keepSession id)
  return if reply.isNotFound then .ok false else reply.content.map fun _ => true

def closeSession (id : String) : Dialogue (Except LockError Unit) := do
  let reply ← Talk.question (.closeSession id)
  return reply.content.map fun _ => ()

/-- Writes a value to a key for a session; says whether the session has the key now. -/
def acquireKey (key session value : String) : Dialogue (Except LockError Bool) := do
  let reply ← Talk.question (.acquire key session value)
  return reply.content.bind fun body => understood "acquire" (flag? body)

/-- Reads a key, if it exists. -/
def getKey (key : String) : Dialogue (Except LockError (Option Entry)) := do
  let reply ← Talk.question (.get key)
  return if reply.isNotFound then .ok none
    else reply.content.bind fun body => (understood "kv" (Entry.parseAll? body)).map List.head?

/-- Deletes a key unless it has changed; says whether it has been deleted. -/
def deleteKey (key : String) (index : Nat) : Dialogue (Except LockError Bool) := do
  let reply ← Talk.question (.deleteAt key index)
  return reply.content.bind fun body => understood "delete" (flag? body)

end LeaseLock.Consul
