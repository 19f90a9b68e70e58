import LeaseLock.Proofs.Consul.Attempts
import LeaseLock.Proofs.Consul.Entries
import LeaseLock.Proofs.Consul.Keys
import LeaseLock.Proofs.Text.Base64

/-!
# Owners that come back

**Values** (`owner_eq_some_iff`). An entry names an owner exactly if its value is the standard form
in base 64 of the bytes of this owner.

**Servers that echo** (`Echoes`). What is assumed of the server, for one key: it stores the body of
the request that takes the key, gives the key to no other session meanwhile, and describes it with
the session that holds it and the body in base 64.

The body that an attempt sends is its owner. So the next attempt reads this owner in the reply,
which is an array of one object, as the entry that the object renders.

Main result: `owner_survives`.
-/

namespace LeaseLock.Consul

open Json (Holds)
open Talk (Course Replied)
open Text.Base64 (standard utf8)

variable {S : Type} [Server S Http.Request Http.Reply] {members : List Member} {cs : List Char}
  {e : Entry} {s : String}

/-! ## Values and replies -/

/-- The standard form in base 64 of the bytes of a text. -/
def inBase64 (s : String) : String := String.ofList (standard (utf8 s))

/-- **An entry names an owner** exactly if its value is the standard form of this owner. -/
theorem owner_eq_some_iff : e.owner = some s ↔ e.value = some (inBase64 s) := by
  unfold Entry.owner inBase64
  rw [Option.bind_eq_some_iff]
  constructor
  · rintro ⟨v, hv, hs⟩
    rw [hv, Text.Base64.decodeText_eq_some_iff.1 hs]
  · intro hv
    exact ⟨_, hv, Text.Base64.decodeText_eq_some_iff.2 rfl⟩

theorem parseAll?_of_renders (h : Holds cs (.array [.object members])) (hr : Renders members e) :
    Entry.parseAll? (String.ofList cs) = some [e] := by
  have hs : IsSpelled members := isSpelled_of_written fun t ht =>
    h.exists_written (Json.mem_words_array List.mem_cons_self ht)
  have hread : Entry.ofJson? (.object members) = some e := (ofJson?_eq_some_iff hs).2 hr
  rw [Entry.parseAll?, Json.parse?_of_holds h]
  simp [Json.Value.items?, hread]

/-! ## Servers that echo -/

/-- A key that a session holds. -/
structure Holding where
  session : String
  /-- What was sent when the key was taken. -/
  body : String
deriving DecidableEq

/-- The reply describes the key as it is held. -/
def Describes (x : Holding) (r : Http.Reply) : Prop :=
  ∃ cs members e, r.content = .ok (String.ofList cs) ∧ Holds cs (.array [.object members]) ∧
    Renders members e ∧ e.session = some x.session ∧
      (x.body ≠ "" → e.value = some (inBase64 x.body))

/-- **What is assumed of a server**, towards the clients that reach it, for one key. -/
structure Echoes (S : Type) [Server S Http.Request Http.Reply] (reaches : Client → Prop)
    (key : String) (held? : S → Option Holding) : Prop where
  /-- A session that is created is new, so that it does not hold the key. -/
  opens : ∀ c name ttl r (s : S), reaches c → c.request? (.openSession name ttl) = some r →
    held? (Server.answer s r).1 = held? s ∧ ∃ reply session,
      (Server.answer s r).2 = some reply ∧ sessionIn? reply = some session ∧
        ∀ x, held? s = some x → x.session ≠ session
  /-- The body of the request that takes the key is stored. -/
  takes : ∀ c session value r (s : S) reply, reaches c →
    c.request? (.acquire key session value) = some r → (Server.answer s r).2 = some reply →
    flagIn? reply = some true → held? (Server.answer s r).1 = some ⟨session, r.body⟩
  /-- A key that is held is not given away. -/
  refuses : ∀ c session value r (s : S) x, reaches c →
    c.request? (.acquire key session value) = some r → held? s = some x → x.session ≠ session →
    held? (Server.answer s r).1 = some x ∧ ∃ reply,
      (Server.answer s r).2 = some reply ∧ flagIn? reply = some false
  /-- A key that is held is described. -/
  tells : ∀ c r (s : S) x, reaches c → c.request? (.get key) = some r → held? s = some x →
    ∃ reply, (Server.answer s r).2 = some reply ∧ Describes x reply
  closes : ∀ c session r (s : S), reaches c → c.request? (.closeSession session) = some r →
    ((Server.answer s r).2).isSome = true

/-- All questions can be sent. -/
def Client.Sends (c : Client) : Prop := ∀ q, (c.request? q).isSome = true

/-- All questions can be sent if the address leaves room for a path. -/
theorem Client.sends_of_directory {c : Client} {root : Url}
    (h : Url.Directory (c.baseUrl ++ "/") root) (hid : c.CanIdentify) : c.Sends := by
  obtain ⟨place, -, hparse⟩ := h.parse?_below
  have hsends {method : Http.Method} {path body : String} {parameter : Option (String × String)}
      {headers : List (String × String)} (t : String) (hpath : path = "/" ++ t) :
      (c.request method path parameter headers body).isSome = true := by
    have hurl := hparse t
    rw [String.append_assoc, ← hpath] at hurl
    obtain ⟨r, hr, -⟩ := exists_request hid hurl method parameter headers body
    rw [hr]
    rfl
  have hbehind {directory t : String} (hd : directory = "/" ++ t) (u : String) :
      directory ++ u = "/" ++ (t ++ u) := by
    rw [hd, String.append_assoc]
  intro q
  cases q with
  | openSession name ttl =>
    rw [request?]
    exact hsends "v1/session/create" (by decide)
  | keepSession id =>
    rw [request?]
    exact hsends _ (hbehind (t := "v1/session/renew/") (by decide) id)
  | closeSession id =>
    rw [request?]
    exact hsends _ (hbehind (t := "v1/session/destroy/") (by decide) id)
  | acquire key session value =>
    rw [request?]
    exact hsends _ (hbehind (t := "v1/kv/") (by decide) key)
  | get key =>
    rw [request?]
    exact hsends _ (hbehind (t := "v1/kv/") (by decide) key)
  | deleteAt key index =>
    rw [request?]
    exact hsends _ (hbehind (t := "v1/kv/") (by decide) key)

theorem Client.of_request {c : Client} {method : Http.Method} {path body : String}
    {parameter : Option (String × String)} {headers : List (String × String)} {r : Http.Request}
    (h : c.request method path parameter headers body = some r) :
    r.method = method ∧ r.body = body ∧ ∃ u, Url.parse? (c.baseUrl ++ path) = some u ∧
      r.url = parameter.elim u fun p => u.withParameter p.1 p.2 := by
  unfold request at h
  obtain ⟨u, hu, h⟩ := Option.bind_eq_some_iff.1 h
  have hmade : ∃ access, r = {
      method
      url := parameter.elim u fun p => u.withParameter p.1 p.2
      headers := access ++ headers
      body } := by
    generalize c.token = token at h
    cases token with
    | none => cases parameter with
      | none => exact ⟨[], (Option.some.inj h).symm⟩
      | some pair => exact ⟨[], (Option.some.inj h).symm⟩
    | some token =>
      obtain ⟨access, -, h⟩ := Option.bind_eq_some_iff.1 h
      cases parameter with
      | none => exact ⟨access, (Option.some.inj h).symm⟩
      | some pair => exact ⟨access, (Option.some.inj h).symm⟩
  obtain ⟨access, rfl⟩ := hmade
  exact ⟨rfl, rfl, u, hu, rfl⟩

theorem Client.body_of_acquire {c : Client} {key session value : String} {r : Http.Request}
    (h : c.request? (.acquire key session value) = some r) : r.body = value := by
  rw [request?] at h
  exact (of_request h).2.1

/-! ## The attempt that gets the key -/

variable {c : Client} {q : Question} {r : Http.Request} {server : S} {reply : Http.Reply}

theorem Agent.answer_of_request (h : c.request? q = some r) :
    Server.answer (⟨c, server⟩ : Agent S) q =
      (⟨c, (Server.answer server r).1⟩, (Server.answer server r).2) := by
  show Agent.answer _ q = _
  rw [Agent.answer, h]

/-- What an agent answers is said by its server, or the question cannot be sent. -/
theorem Agent.answer_cases {a : Agent S} {reply : Option Http.Reply}
    (h : Server.answer (⟨c, server⟩ : Agent S) q = (a, reply)) :
    a.client = c ∧ ((∃ r, c.request? q = some r ∧ Server.answer server r = (a.server, reply)) ∨
      a.server = server ∧ ∃ report, reply = some (.failure report)) := by
  change Agent.answer _ q = _ at h
  unfold answer at h
  split at h
  next r hr =>
    cases h
    exact ⟨rfl, .inl ⟨r, hr, rfl⟩⟩
  next =>
    cases h
    exact ⟨rfl, .inr ⟨rfl, _, rfl⟩⟩

theorem Attempted.of_granted {ks : Keyspace} {d : Errand String} {token : Option String}
    {sent : List (Question × Option Http.Reply)}
    (h : Attempted ks d sent (some (token, .ok .granted))) :
    ∃ name ttl first session reply, flagIn? reply = some true ∧
      sent = [(.openSession name ttl, some first),
        (.acquire (ks.key d.own.name) session d.options.owner, some reply)] := by
  cases h with
  | tried _ ht =>
    cases ht with
    | granted hflag => exact ⟨_, _, _, _, _, hflag, rfl⟩
    | refused _ hd => cases hd.closings.2 _ rfl
    | failed _ hd => cases hd.closings.2 _ rfl

variable {reaches : Client → Prop} {key : String} {held? : S → Option Holding} {ks : Keyspace}
  {d : Errand String}

/-- **The owner of an attempt that gets the key is stored.** -/
theorem Echoes.held_of_granted (hechoes : Echoes S reaches key held?) (hreaches : reaches ks.client)
    (hkey : ks.key d.own.name = key) {a : Agent S} {token : Option String}
    (hrun : (ks.adapter d .acquire).run (⟨ks.client, server⟩ : Agent S) =
      (a, .ok (token, .acquire (.ok .granted)))) :
    ∃ session, held? a.server = some ⟨session, d.options.owner⟩ := by
  obtain ⟨sent, hcourse, hreplied⟩ := Talk.replied_of_run hrun
  obtain ⟨result, hresult, hattempted⟩ := attempted_of_course hcourse
  obtain ⟨⟨token', attempt⟩, rfl, hx⟩ := Option.map_eq_some_iff.1 hresult.symm
  cases hx
  obtain ⟨name, ttl, first, session, reply, hflag, rfl⟩ := hattempted.of_granted
  obtain _ | ⟨hopen, hrest⟩ := hreplied
  obtain _ | ⟨htake, hdone⟩ := hrest
  cases hdone
  obtain ⟨hclient, -⟩ := Agent.answer_cases hopen
  rw [← hclient] at hreaches
  obtain ⟨-, ⟨r, hr, hserver⟩ | ⟨-, report, hreply⟩⟩ := Agent.answer_cases htake
  · have htaken := hechoes.takes _ session _ r _ reply hreaches (hkey ▸ hr) (by rw [hserver]) hflag
    rw [hserver, Client.body_of_acquire hr] at htaken
    exact ⟨session, htaken⟩
  · cases hreply
    cases hflag

/-! ## The attempt that is refused -/

section Refusal

variable {A : Type} [Server A Question Http.Reply] {a a₁ a₂ a₃ a₄ : A} {r₁ r₂ r₃ r₄ : Http.Reply}
  {session body : String} {o : Options}

theorem understood_of_read {α : Type} {r : Http.Reply} {what : String} {f : String → Option α}
    {x : α} (h : r.content.toOption.bind f = some x) :
    (r.content.bind fun body => understood what (f body)) = .ok x := by
  obtain ⟨body, hbody, hx⟩ := exists_content h
  rw [hbody]
  show understood what (f body) = _
  rw [hx, understood]

theorem run_openSession {name : String} {ttl : Nat}
    (h : Server.answer a (.openSession name ttl) = (a₁, some r₁))
    (hs : sessionIn? r₁ = some session) :
    (openSession name ttl).run a = (a₁, .ok (.ok session)) := by
  rw [openSession, Talk.bind_eq, Talk.run_bind, Talk.run_question h, ← understood_of_read hs]
  rfl

theorem run_acquireKey {value : String} {flag : Bool}
    (h : Server.answer a (.acquire key session value) = (a₁, some r₁))
    (hf : flagIn? r₁ = some flag) :
    (acquireKey key session value).run a = (a₁, .ok (.ok flag)) := by
  rw [acquireKey, Talk.bind_eq, Talk.run_bind, Talk.run_question h, ← understood_of_read hf]
  rfl

/-- A key that a session holds has the owner that the entry in the reply names. -/
theorem run_ownerOf (h : Server.answer a (.get key) = (a₁, some r₁))
    (hbody : r₁.content = .ok body) (he : Entry.parseAll? body = some [e])
    (hs : e.session = some session) : (ownerOf key).run a = (a₁, .ok e.owner) := by
  have hread : (getKey key).run a = (a₁, .ok (.ok (some e))) := by
    rw [getKey, Talk.bind_eq, Talk.run_bind, Talk.run_question h]
    show (Talk.done (if r₁.isNotFound then _ else r₁.content.bind _)).run a₁ = _
    rw [isNotFound_of_content hbody, hbody]
    show (Talk.done ((understood "kv" (Entry.parseAll? body)).map List.head?)).run a₁ = _
    rw [he]
    rfl
  rw [ownerOf, Talk.bind_eq, Talk.run_bind, hread]
  show (Talk.done (if e.session.isSome then e.owner else none)).run a₁ = _
  rw [hs]
  rfl

theorem run_closeSession (h : Server.answer a (.closeSession session) = (a₁, some r₁)) :
    ∃ u, (discard (closeSession session)).run a = (a₁, .ok u) := by
  refine ⟨(), ?_⟩
  show ((closeSession session).bind _).run a = _
  rw [Talk.run_bind, closeSession, Talk.bind_eq, Talk.run_bind, Talk.run_question h]
  rfl

/-- **An attempt that is refused is told the owner that the entry in the reply names.** -/
theorem run_acquire_of_refused
    (h₁ : Server.answer a (.openSession o.name (lifetime o)) = (a₁, some r₁))
    (hs : sessionIn? r₁ = some session)
    (h₂ : Server.answer a₁ (.acquire key session o.owner) = (a₂, some r₂))
    (hf : flagIn? r₂ = some false) (h₃ : Server.answer a₂ (.get key) = (a₃, some r₃))
    (hbody : r₃.content = .ok body) (he : Entry.parseAll? body = some [e])
    (hheld : e.session.isSome = true)
    (h₄ : Server.answer a₃ (.closeSession session) = (a₄, some r₄)) (token : Option String) :
    (acquire key o token).run a = (a₄, .ok (token, .ok (.occupied e.owner))) := by
  obtain ⟨holder, hholder⟩ := Option.isSome_iff_exists.1 hheld
  obtain ⟨u, hclose⟩ := run_closeSession h₄
  have htry : (tryFor key o token session).run a₁ = (a₄, .ok (token, .ok (.occupied e.owner))) := by
    rw [tryFor, Talk.bind_eq, Talk.run_bind, run_acquireKey h₂ hf]
    show ((ownerOf key).bind _).run a₂ = _
    rw [Talk.run_bind, run_ownerOf h₃ hbody he hholder]
    show ((discard (closeSession session)).bind _).run a₃ = _
    rw [Talk.run_bind, hclose]
    rfl
  rw [acquire_eq, Talk.run_bind, run_openSession h₁ hs]
  exact Talk.run_owing htry

theorem run_acquire_of_taken
    (h₁ : Server.answer a (.openSession o.name (lifetime o)) = (a₁, some r₁))
    (hs : sessionIn? r₁ = some session)
    (h₂ : Server.answer a₁ (.acquire key session o.owner) = (a₂, some r₂))
    (hf : flagIn? r₂ = some true) (token : Option String) :
    (acquire key o token).run a = (a₂, .ok (some session, .ok .granted)) := by
  have htry : (tryFor key o token session).run a₁ = (a₂, .ok (some session, .ok .granted)) := by
    rw [tryFor, Talk.bind_eq, Talk.run_bind, run_acquireKey h₂ hf]
    rfl
  rw [acquire_eq, Talk.run_bind, run_openSession h₁ hs]
  exact Talk.run_owing htry

theorem run_adapter_of_acquire {x : Outcome}
    (h : (acquire (ks.key d.own.name) d.options d.token).run a = (a₁, .ok x)) :
    (ks.adapter d .acquire).run a = (a₁, .ok (x.1, .acquire x.2)) := by
  show ((acquire _ _ _).bind _).run a = _
  rw [Talk.run_bind, h]
  rfl

end Refusal

/-- **An attempt at a key that is held is refused, and told what was sent when it was taken.** -/
theorem Echoes.run_refused (hechoes : Echoes S reaches key held?) (hreaches : reaches ks.client)
    (hsends : ks.client.Sends) (hkey : ks.key d.own.name = key) {x : Holding}
    (hx : held? server = some x) (hbody : x.body ≠ "") :
    ∃ a, (ks.adapter d .acquire).run (⟨ks.client, server⟩ : Agent S) =
      (a, .ok (d.token, .acquire (.ok (.occupied (some x.body))))) := by
  subst hkey
  have sent (q : Question) : ∃ r, ks.client.request? q = some r :=
    Option.isSome_iff_exists.1 (hsends q)
  obtain ⟨r₁, hr₁⟩ := sent (.openSession d.options.name (lifetime d.options))
  obtain ⟨hheld₁, reply₁, session, h₁, hsession, hfresh⟩ :=
    hechoes.opens _ _ _ _ server hreaches hr₁
  rw [hx] at hheld₁
  obtain ⟨r₂, hr₂⟩ := sent (.acquire (ks.key d.own.name) session d.options.owner)
  obtain ⟨hheld₂, reply₂, h₂, hflag⟩ :=
    hechoes.refuses _ _ _ _ _ _ hreaches hr₂ hheld₁ (hfresh x hx)
  obtain ⟨r₃, hr₃⟩ := sent (.get (ks.key d.own.name))
  obtain ⟨reply₃, h₃, cs, members, e, hcontent, hholds, hrenders, hholder, hvalue⟩ :=
    hechoes.tells _ _ _ _ hreaches hr₃ hheld₂
  obtain ⟨r₄, hr₄⟩ := sent (.closeSession session)
  obtain ⟨reply₄, h₄⟩ := Option.isSome_iff_exists.1
    (hechoes.closes _ _ _ (Server.answer _ r₃).1 hreaches hr₄)
  have hrun := run_acquire_of_refused
    ((Agent.answer_of_request hr₁).trans (by rw [h₁])) hsession
    ((Agent.answer_of_request hr₂).trans (by rw [h₂])) hflag
    ((Agent.answer_of_request hr₃).trans (by rw [h₃])) hcontent
    (parseAll?_of_renders hholds hrenders) (by rw [hholder]; rfl)
    ((Agent.answer_of_request hr₄).trans (by rw [h₄])) d.token
  rw [owner_eq_some_iff.2 (hvalue hbody)] at hrun
  exact ⟨_, run_adapter_of_acquire hrun⟩

/-- **Owners come back as they were sent.** An entry names an owner exactly if its value is the
standard form in base 64 of the bytes of this owner in UTF-8, and no other form of it will do. So
with a server that echoes, the owner of an attempt that got the key, unless it is empty, is what any
other attempt is told that finds the key still held: that attempt is refused, whatever options it
has. -/
theorem owner_survives :
    (∀ (e : Entry) (s : String), e.owner = some s ↔
      e.value = some (String.ofList (standard (utf8 s)))) ∧
    ∀ (S : Type) [Server S Http.Request Http.Reply] (reaches : Client → Prop) (key : String)
      (held? : S → Option Holding), Echoes S reaches key held? →
      ∀ (ks ks' : Keyspace) (d d' : Errand String) (s s' : S) (a : Agent S) (token : Option String),
        reaches ks.client → reaches ks'.client → ks'.client.Sends →
        ks.key d.own.name = key → ks'.key d'.own.name = key → d.options.owner ≠ "" →
        (ks.adapter d .acquire).run (⟨ks.client, s⟩ : Agent S) =
          (a, .ok (token, .acquire (.ok .granted))) →
        held? s' = held? a.server →
        ∃ a', (ks'.adapter d' .acquire).run (⟨ks'.client, s'⟩ : Agent S) =
          (a', .ok (d'.token, .acquire (.ok (.occupied (some d.options.owner))))) := by
  refine ⟨fun e s => owner_eq_some_iff, ?_⟩
  intro S _ reaches key held? hechoes ks ks' d d' s s' a token hreaches hreaches' hsends hkey hkey'
    howner hrun hstill
  obtain ⟨session, hheld⟩ := hechoes.held_of_granted hreaches hkey hrun
  exact hechoes.run_refused hreaches' hsends hkey' (hstill.trans hheld) howner

/-! ## A server that echoes -/

/-- An agent with one key, which a session holds, or nobody. -/
structure Echo where
  held : Option Holding
deriving DecidableEq

namespace Echo

/-- The session that a request takes the key for. -/
def taker? (r : Http.Request) : Option String :=
  r.url.parameters?.bind (·.lookup "acquire")

/-- What stands behind a directory in the path of a request. -/
def below? (directory : String) (r : Http.Request) : Option String :=
  if directory.toList.isPrefixOf r.url.path.toList then
    some (String.ofList (r.url.path.toList.drop directory.toList.length))
  else none

/-- A session that does not hold the key. -/
def fresh (s : Echo) : String := if (s.held.map Holding.session) = some "a" then "b" else "a"

/-- The object that names a session. -/
def identified (session : String) : String := "\x7b\"ID\":\"" ++ session ++ "\"\x7d"

/-- The value of the key in base 64; there is none if nothing was sent. -/
def value (x : Holding) : Option String := if x.body = "" then none else some (inBase64 x.body)

/-- The object that describes the key. -/
def rendered (x : Holding) : List Member :=
  [(Json.plain "LockIndex", .number ['1']), (Json.plain "Key", .text (Json.plain "locks/job")),
    (Json.plain "Flags", .number ['0']),
    (Json.plain "Value", (value x).elim .null fun v => .text (Json.escaped v)),
    (Json.plain "Session", .text (Json.escaped x.session)),
    (Json.plain "CreateIndex", .number ['7']), (Json.plain "ModifyIndex", .number ['7'])]

/-- The object in an array, as it is written. -/
def description (x : Holding) : List Char :=
  (Json.Value.array [.object (rendered x)]).words.flatMap Json.Token.write

/-- A session is destroyed, which frees its key, renewed or created. -/
def attend (s : Echo) (r : Http.Request) : Echo × String :=
  match below? "/v1/session/destroy/" r, below? "/v1/session/renew/" r with
  | some session, _ => (⟨s.held.filter (·.session ≠ session)⟩, "true")
  | none, some session => (s, "[" ++ identified session ++ "]")
  | none, none => (s, identified s.fresh)

/-- The key is taken by a request for a session, unless another one holds it. -/
def answer (s : Echo) (r : Http.Request) : Echo × Option Http.Reply :=
  match r.method, taker? r with
  | .put, some session =>
    if s.held.all (·.session = session) then (⟨some ⟨session, r.body⟩⟩, some (.response 200 "true"))
    else (s, some (.response 200 "false"))
  | .put, none => ((s.attend r).1, some (.response 200 (s.attend r).2))
  | .get, _ => (s, some (s.held.elim (.response 404 "") fun x =>
      .response 200 (String.ofList (description x))))
  | .delete, _ => (⟨none⟩, some (.response 200 "true"))

instance : Server Echo Http.Request Http.Reply := ⟨answer⟩

theorem isPlain_words (x : Holding) :
    (Json.Value.array [.object (rendered x)]).words.all Json.Token.isPlain = true := by
  have hsession := Json.isPlain_escaped x.session
  cases hv : value x with
  | none =>
    simp [Json.Value.words, Json.wordsOfItems, Json.wordsOfMembers, Json.listed, rendered,
      Json.Token.isPlain, hsession, hv]
    decide
  | some v =>
    simp [Json.Value.words, Json.wordsOfItems, Json.wordsOfMembers, Json.listed, rendered,
      Json.Token.isPlain, hsession, hv, Json.isPlain_escaped v]
    decide

theorem renders_rendered (x : Holding) : Renders (rendered x)
    ⟨"locks/job", value x, some x.session, 7⟩ := by
  have hs : IsSpelled (rendered x) := isSpelled_of_written fun t ht =>
    ⟨_, Json.Token.written_write (List.all_eq_true.1 (isPlain_words x) t
      (Json.mem_words_array List.mem_cons_self ht))⟩
  have hdecode (name : String) : Json.decode? (Json.plain name) = some name :=
    (Json.decode?_eq_some_iff fun u hu => by simp [Json.plain] at hu).2 (Json.spells_plain name)
  have hone {name : String} {v : Json.Value} (h : valuesOf (rendered x) name = [v]) :
      HasOne (rendered x) name v := (valuesOf_eq_singleton_iff hs).1 h
  refine ⟨?_, ?_, ?_, ?_, ?_⟩
  · simp only [rendered, List.mem_cons, List.not_mem_nil, or_false]
    rintro m (rfl | rfl | rfl | rfl | rfl | rfl | rfl)
    all_goals exact ⟨_, Json.spells_plain _⟩
  · exact ⟨_, hone (by simp [valuesOf, rendered, hdecode]), _, rfl, Json.spells_plain _⟩
  · cases hv : value x with
    | none => exact .inr (hone (by simp [valuesOf, rendered, hdecode, hv]))
    | some v =>
      exact ⟨_, hone (by simp [valuesOf, rendered, hdecode, hv]), _, rfl, Json.spells_escaped v⟩
  · exact ⟨_, hone (by simp [valuesOf, rendered, hdecode]), _, rfl, Json.spells_escaped _⟩
  · exact ⟨_, hone (by simp [valuesOf, rendered, hdecode]; rfl), rfl, show 7 < 2 ^ 64 by decide⟩

theorem session_ne_fresh {s : Echo} {x : Holding} (h : s.held = some x) : x.session ≠ s.fresh := by
  rw [fresh, h]
  by_cases ha : x.session = "a"
  · simp [ha]
  · simp [ha]

theorem taker?_of_query {r : Http.Request} (h : r.url.query = none) : taker? r = none := by
  rw [taker?, Url.parameters?, h]
  rfl

theorem taker?_of_acquire {session value : String} {r : Http.Request}
    (h : localAgent.client.request? (.acquire "locks/job" session value) = some r) :
    r.method = .put ∧ taker? r = some session := by
  rw [Client.request?] at h
  obtain ⟨hmethod, -, u, hu, hurl⟩ := Client.of_request h
  have hread : Url.parse? "http://127.0.0.1:8500/v1/kv/locks/job" =
      some ⟨"127.0.0.1:8500", "/v1/kv/locks/job", none⟩ := by decide +kernel
  obtain rfl := Option.some.inj (hread.symm.trans hu)
  refine ⟨hmethod, ?_⟩
  rw [taker?, hurl]
  show (Url.parameters? (Url.withParameter _ "acquire" session)).bind _ = _
  rw [Url.parameters?_withParameter rfl]
  rfl

theorem attend_of_create {r : Http.Request} {s : Echo} (h : r.url.path = "/v1/session/create") :
    s.attend r = (s, identified s.fresh) := by
  have hdestroy : below? "/v1/session/destroy/" r = none := by
    rw [below?, h]
    decide +kernel
  have hrenew : below? "/v1/session/renew/" r = none := by
    rw [below?, h]
    decide +kernel
  rw [attend, hdestroy, hrenew]

/-- **The server echoes**, towards the client of the local agent. -/
theorem echoes : Echoes Echo (· = localAgent.client) "locks/job" held where
  opens := by
    rintro _ name ttl r s rfl h
    rw [Client.request?] at h
    obtain ⟨hmethod, -, u, hu, hurl⟩ := Client.of_request h
    have hread : Url.parse? "http://127.0.0.1:8500/v1/session/create" =
        some ⟨"127.0.0.1:8500", "/v1/session/create", none⟩ := by decide +kernel
    obtain rfl := Option.some.inj (hread.symm.trans hu)
    have htaker : taker? r = none := taker?_of_query (by rw [hurl]; rfl)
    have hanswer : Server.answer s r = (s, some (.response 200 (identified s.fresh))) := by
      show answer s r = _
      rw [answer, hmethod, htaker, attend_of_create (by rw [hurl]; rfl)]
    rw [hanswer]
    refine ⟨rfl, _, s.fresh, rfl, ?_, fun x hx => session_ne_fresh hx⟩
    unfold fresh
    split
    · decide +kernel
    · decide +kernel
  takes := by
    rintro _ session value r s reply rfl h hreply hflag
    obtain ⟨hmethod, htaker⟩ := taker?_of_acquire h
    have hanswer : Server.answer s r = if s.held.all (·.session = session) then
        (⟨some ⟨session, r.body⟩⟩, some (.response 200 "true"))
        else (s, some (.response 200 "false")) := by
      show answer s r = _
      rw [answer, hmethod, htaker]
    rw [hanswer] at hreply ⊢
    split at hreply
    next hfree => rw [if_pos hfree]
    next hheld =>
      cases hreply
      exact absurd hflag (by decide +kernel)
  refuses := by
    rintro _ session value r s x rfl h hheld hne
    obtain ⟨hmethod, htaker⟩ := taker?_of_acquire h
    have hanswer : Server.answer s r = (s, some (.response 200 "false")) := by
      show answer s r = _
      rw [answer, hmethod, htaker]
      simp [hheld, hne]
    rw [hanswer]
    exact ⟨hheld, _, rfl, by decide +kernel⟩
  tells := by
    rintro _ r s x rfl h hheld
    rw [Client.request?] at h
    obtain ⟨hmethod, -, -⟩ := Client.of_request h
    refine ⟨.response 200 (String.ofList (description x)), ?_, description x, rendered x, _, rfl,
      Json.holds_write (isPlain_words x), renders_rendered x, rfl, fun hbody => if_neg hbody⟩
    show (answer s r).2 = _
    rw [answer, hmethod]
    simp [hheld]
  closes := by
    rintro _ session r s rfl -
    show ((answer s r).2).isSome = true
    unfold answer
    split
    · split <;> rfl
    all_goals rfl

end Echo

theorem localAgent_sends : localAgent.client.Sends := by
  have hroot : Url.Directory "http://127.0.0.1:8500/" ⟨"127.0.0.1:8500", "/", none⟩ :=
    ⟨by decide +kernel, by decide +kernel, by decide +kernel, by decide +kernel⟩
  refine Client.sends_of_directory hroot ?_
  rintro token ⟨⟩
  decide +kernel

deriving instance DecidableEq for Agent

/-- An owner with characters of two and of four bytes. -/
def accented : Errand String :=
  ⟨{ owner := "Jörg 😀", name := "job" }, { owner := "Jörg 😀", name := "job" }, none, 0, 0⟩

/-- Another owner wants the same lock. -/
def rival : Errand String :=
  ⟨{ owner := "b", name := "job" }, { owner := "b", name := "job" }, none, 0, 0⟩

/-- The key as the first of them holds it. -/
def taken : Echo := ⟨some ⟨"a", accented.options.owner⟩⟩

theorem run_accented : (localAgent.adapter accented .acquire).run
    (⟨localAgent.client, ⟨none⟩⟩ : Agent Echo) =
      (⟨localAgent.client, taken⟩, .ok (some "a", .acquire (.ok .granted))) := by
  have hopen : Server.answer (⟨localAgent.client, ⟨none⟩⟩ : Agent Echo)
      (.openSession accented.options.name (lifetime accented.options)) =
        (⟨localAgent.client, ⟨none⟩⟩, some (.response 200 (Echo.identified "a"))) := by
    decide +kernel
  have htake : Server.answer (⟨localAgent.client, ⟨none⟩⟩ : Agent Echo)
      (.acquire (localAgent.key accented.own.name) "a" accented.options.owner) =
        (⟨localAgent.client, taken⟩, some (.response 200 "true")) := by decide +kernel
  exact run_adapter_of_acquire
    (run_acquire_of_taken hopen (by decide +kernel) htake (by decide +kernel) none)

/-- The rival is told the owner with all its characters. -/
theorem owner_survives_accented : ∃ a' : Agent Echo, (localAgent.adapter rival .acquire).run
    (⟨localAgent.client, taken⟩ : Agent Echo) =
      (a', .ok (none, .acquire (.ok (.occupied (some "J\u00f6rg 😀"))))) :=
  owner_survives.2 Echo (· = localAgent.client) "locks/job" Echo.held Echo.echoes localAgent
    localAgent accented rival ⟨none⟩ taken ⟨localAgent.client, taken⟩ (some "a") rfl rfl
    localAgent_sends rfl rfl (by decide) run_accented rfl

end LeaseLock.Consul
