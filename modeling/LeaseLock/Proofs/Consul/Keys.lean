import LeaseLock.Proofs.Consul.Dialogues
import LeaseLock.Proofs.Remote.Courses
import LeaseLock.Proofs.Url.Literal

/-!
# Which entry of the store a lock is

**Questions about keys** (`Keyspace.Asks`). An adapter asks about one key only, which is made of the
prefix and the name of its lock.

**Requests** (`Addresses`). Such a question becomes a request whose address is the address of the
store with the key behind it, and with the parameters of the question. Read again, it should name
the entry of that key, and have these parameters only.

It does so exactly if the key is literal; then locks of different names are different entries.

Main result: `addressed_iff_literal`.
-/

namespace LeaseLock

/-- The parameters that stand in the query of an address. -/
def Url.parameters? (u : Url) : Option (List (String × String)) :=
  match u.query with
  | some query => formPairs? query.toList
  | none => some []

theorem Url.parameters?_withParameter {u : Url} (h : u.query = none) (name value : String) :
    (u.withParameter name value).parameters? = some [(name, value)] := by
  unfold withParameter parameters?
  rw [h]
  exact formPairs?_pair name value

namespace Consul

open Talk (Course)
open Url (Directory IsLiteral entryOf? bytes)

variable {c : Client} {ks : Keyspace} {root : Url} {q : Question} {key : String} {strict : Bool}

/-! ## Requests about keys -/

/-- The key that a question is about. -/
def Question.key? : Question → Option String
  | .acquire key _ _ | .get key | .deleteAt key _ => some key
  | .openSession .. | .keepSession _ | .closeSession _ => none

/-- The parameter that the request for a question has. -/
def Question.parameter? : Question → Option (String × String)
  | .acquire _ session _ => some ("acquire", session)
  | .deleteAt _ index => some ("cas", toString index)
  | .get _ | .openSession .. | .keepSession _ | .closeSession _ => none

/-- The address of the store, if the address of the agent leaves room for a path. -/
structure Client.HasStore (c : Client) (root : Url) : Prop where
  parses : Url.parse? (c.baseUrl ++ "/v1/kv/") = some root
  unmarked : '?' ∉ c.baseUrl.toList ∧ '#' ∉ c.baseUrl.toList

theorem Client.HasStore.directory (h : c.HasStore root) :
    Directory (c.baseUrl ++ "/v1/kv/") root := by
  refine ⟨h.parses, ?_, ?_⟩
  · rw [String.toList_append, List.getLast?_append]
    rfl
  · have hpath : '?' ∉ "/v1/kv/".toList ∧ '#' ∉ "/v1/kv/".toList := by decide
    simp only [String.toList_append, List.mem_append, not_or]
    exact ⟨⟨h.unmarked.1, hpath.1⟩, h.unmarked.2, hpath.2⟩

/-- What gives access can be sent. -/
def Client.CanIdentify (c : Client) : Prop :=
  ∀ token, c.token = some token → (Http.headerValue? token).isSome = true

theorem exists_request (hc : c.CanIdentify) {path : String} {u : Url}
    (hu : Url.parse? (c.baseUrl ++ path) = some u) (method : Http.Method)
    (parameter : Option (String × String)) (headers : List (String × String)) (body : String) :
    ∃ r, c.request method path parameter headers body = some r ∧ r.url = match parameter with
      | some (name, value) => u.withParameter name value
      | none => u := by
  unfold Client.request
  rw [hu]
  cases htoken : c.token with
  | none => exact ⟨_, rfl, rfl⟩
  | some token =>
    obtain ⟨value, hvalue⟩ := Option.isSome_iff_exists.1 (hc token htoken)
    simp only [Option.bind_eq_bind, Option.bind_some, hvalue, Option.map_some]
    exact ⟨_, rfl, rfl⟩

theorem exists_request_of_key (hc : c.CanIdentify) (hq : q.key? = some key) {u : Url}
    (hu : Url.parse? (c.baseUrl ++ "/v1/kv/" ++ key) = some u) :
    ∃ r, c.request? q = some r ∧ r.url = match q.parameter? with
      | some (name, value) => u.withParameter name value
      | none => u := by
  rw [String.append_assoc] at hu
  cases q with
  | acquire | get | deleteAt =>
    obtain rfl := Option.some.inj hq
    simp only [Client.request?, Question.parameter?]
    exact exists_request hc hu ..
  | openSession | keepSession | closeSession => cases hq

/-- The request names the entry of the key, and gives the parameter alone. -/
structure Addresses (strict : Bool) (root : Url) (key : String)
    (parameter : Option (String × String)) (r : Http.Request) : Prop where
  entry : entryOf? strict root r.url = some (bytes key.toList)
  parameters : r.url.parameters? = some parameter.toList

/-- **A request names the entry of its key** exactly if the key is literal. -/
theorem Client.HasStore.addresses_iff (h : c.HasStore root) (hc : c.CanIdentify) (strict : Bool)
    (hq : q.key? = some key) :
    ∃ r, c.request? q = some r ∧
      (Addresses strict root key q.parameter? r ↔ IsLiteral strict key.toList) := by
  obtain ⟨place, -, hparse⟩ := h.directory.parse?_below
  obtain ⟨u, hu⟩ : ∃ u, Url.parse? (c.baseUrl ++ "/v1/kv/" ++ key) = some u := ⟨_, hparse key⟩
  obtain ⟨r, hr, hurl⟩ := exists_request_of_key hc hq hu
  have hentry : entryOf? strict root r.url = entryOf? strict root u := by
    rw [hurl]
    cases q.parameter? <;> rfl
  refine ⟨r, hr, fun ha => (h.directory.entryOf?_eq_iff hu).1 (hentry ▸ ha.entry), fun hl => ?_⟩
  refine ⟨hentry.trans ((h.directory.entryOf?_eq_iff hu).2 hl), ?_⟩
  have hquery := h.directory.query_eq_none hu hl
  rw [hurl]
  cases q.parameter? with
  | none => simp [Url.parameters?, hquery]
  | some pair => exact Url.parameters?_withParameter hquery pair.1 pair.2

/-! ## What adapters ask -/

/-- The adapter of a lock asks the question on one of its courses, and the question is about a
key. -/
def Keyspace.Asks (ks : Keyspace) (e : Errand String) (q : Question) : Prop :=
  q.key?.isSome = true ∧ ∃ op sent result answer,
    Course (ks.adapter e op) sent result ∧ (q, answer) ∈ sent

/-- **An adapter asks about the key of its lock** and no other. -/
theorem Keyspace.Asks.key_eq {e : Errand String} (h : ks.Asks e q) :
    q.key? = some (ks.key e.own.name) := by
  obtain ⟨hkey, op, sent, result, answer, hcourse, hmem⟩ := h
  obtain ⟨past, hmay⟩ :=
    hcourse.exists_may (rule_binds ks (fun _ => e.own) ⟨0, e, op⟩) (q, answer) hmem
  cases (show May ks ⟨0, e, op⟩ past q from hmay) with
  | openSession | discard | keep | close => cases hkey
  | acquire | get | delete => rfl

theorem Keyspace.key_injective (ks : Keyspace) : Function.Injective ks.key := fun _ _ h => by
  simpa [key, String.append_right_inj] using h

/-- **A lock has the entry of its key** exactly if the key is literal: then every question about the
key becomes a request that names this entry, and gives the parameter of the question alone. So locks
of different names, with literal keys, have different entries. -/
theorem addressed_iff_literal (hstore : ks.client.HasStore root) (hid : ks.client.CanIdentify)
    (strict : Bool) :
    (∀ e q, ks.Asks e q → ∃ r, ks.client.request? q = some r ∧
      (Addresses strict root (ks.key e.own.name) q.parameter? r ↔
        IsLiteral strict (ks.key e.own.name).toList)) ∧
    ∀ e e' q q' r r', e.own.name ≠ e'.own.name →
      IsLiteral strict (ks.key e.own.name).toList → IsLiteral strict (ks.key e'.own.name).toList →
      ks.Asks e q → ks.Asks e' q' →
      ks.client.request? q = some r → ks.client.request? q' = some r' →
      entryOf? strict root r.url ≠ entryOf? strict root r'.url := by
  have haddresses (e : Errand String) (q : Question) (hasks : ks.Asks e q) :=
    hstore.addresses_iff hid strict hasks.key_eq
  refine ⟨haddresses, fun e e' q q' r r' hne hl hl' hasks hasks' hr hr' heq => hne ?_⟩
  obtain ⟨s, hs, ha⟩ := haddresses e q hasks
  obtain ⟨s', hs', ha'⟩ := haddresses e' q' hasks'
  obtain rfl := Option.some.inj (hr.symm.trans hs)
  obtain rfl := Option.some.inj (hr'.symm.trans hs')
  rw [(ha.2 hl).entry, (ha'.2 hl').entry, Option.some.injEq] at heq
  exact ks.key_injective (String.toList_inj.1 (Url.bytes_injective heq))

/-- An agent on this host that wants a token. -/
def localAgent : Keyspace := ⟨⟨"http://127.0.0.1:8500", some "secret"⟩, "locks/"⟩

/-- Where it has its entries. -/
def localStore : Url := ⟨"127.0.0.1:8500", "/v1/kv/", none⟩

/-- What the adapter of a lock needs to know that holds a session. -/
def holding (name : String) : Errand String :=
  ⟨{ owner := "a", name }, { owner := "a", name }, some "s", 0, 0⟩

theorem asks_get (ks : Keyspace) (name : String) : ks.Asks (holding name) (.get (ks.key name)) :=
  ⟨rfl, .release, _, none, none, .cut, List.mem_cons_self⟩

/-- Blanks within a name, slashes, quotes, plus signs and letters of any script are harmless. -/
def trickyName : String := "night run/\"\u00fc\" + 1"

/-- The entry of a tricky name is named, and it is not that of a name that looks alike. -/
theorem addressed_iff_literal_tricky :
    (∃ r, localAgent.client.request? (.get (localAgent.key trickyName)) = some r ∧
      Addresses true localStore (localAgent.key trickyName) none r) ∧
    ∀ r r', localAgent.client.request? (.get (localAgent.key trickyName)) = some r →
      localAgent.client.request? (.get (localAgent.key "night_run")) = some r' →
      entryOf? true localStore r.url ≠ entryOf? true localStore r'.url := by
  have hstore : localAgent.client.HasStore localStore :=
    ⟨by decide +kernel, by decide +kernel, by decide +kernel⟩
  have hid : localAgent.client.CanIdentify := by
    rintro token ⟨⟩
    decide +kernel
  have hl : IsLiteral true (localAgent.key trickyName).toList := by decide +kernel
  have hl' : IsLiteral true (localAgent.key "night_run").toList := by decide +kernel
  obtain ⟨exact, apart⟩ := addressed_iff_literal hstore hid true
  refine ⟨?_, fun r r' hr hr' => ?_⟩
  · obtain ⟨r, hr, ha⟩ := exact (holding trickyName) _ (asks_get localAgent _)
    exact ⟨r, hr, ha.2 hl⟩
  · exact apart (holding trickyName) (holding "night_run") _ _ r r' (by decide) hl hl'
      (asks_get localAgent _) (asks_get localAgent _) hr hr'

/-- The request that takes an entry below the prefix of the local agent. -/
def takingEntry (entry session owner : String) : Http.Request :=
  ⟨.put, ⟨"127.0.0.1:8500", "/v1/kv/locks/" ++ entry, some ("acquire=" ++ session)⟩,
    [("X-Consul-Token", "secret")], owner⟩

/-- **Two locks can have one entry**, though both names are accepted: what stands behind a hash is
no part of the path. -/
theorem shared_of_hash :
    ∃ o o' : Options, o.check = .ok () ∧ o'.check = .ok () ∧ o.name ≠ o'.name ∧
      localAgent.client.request? (.acquire (localAgent.key o.name) "s" "a") =
        some (takingEntry "job" "s" "a") ∧
      localAgent.client.request? (.acquire (localAgent.key o'.name) "t" "b") =
        some (takingEntry "job" "t" "b") ∧
      entryOf? false localStore (takingEntry "job" "s" "a").url =
        entryOf? false localStore (takingEntry "job" "t" "b").url ∧
      entryOf? false localStore (takingEntry "job" "s" "a").url ≠
        some (bytes (localAgent.key o.name).toList) := by
  refine ⟨{ owner := "a", name := "job#1" }, { owner := "b", name := "job#2" }, ?_⟩
  decide +kernel

end Consul

end LeaseLock
