import LeaseLock.Consul.Adapter
import LeaseLock.Proofs.Consul.Store
import Mathlib.Tactic.Common

/-!
# What the operations on sessions ask and come to

**The rule** (`rule`). The key is taken for a session that the operation has created itself, and
only such a session is discarded. A release deletes the key at the index at which it has read that
the session of the acquisition holds it, and closes that session (`May`). An attempt is granted only
if it has taken the key, and a refresh is told that all is well only if the session was kept
(`Ends`).

Main result: `rule_binds`.
-/

namespace LeaseLock.Consul

open Network

variable {ks : Keyspace} {c : Commission String} {past newer : List (Question × Http.Reply)}
  {session : String}

/-- The session that was created. -/
def opened? : Question → Http.Reply → Option String
  | .openSession _ _, r => sessionIn? r
  | _, _ => none

theorem opened?_eq_some {q : Question} {r : Http.Reply} :
    opened? q r = some session ↔
      ∃ name ttl, q = .openSession name ttl ∧ sessionIn? r = some session := by
  unfold opened?
  constructor
  · intro h
    split at h
    · exact ⟨_, _, rfl, h⟩
    · cases h
  · rintro ⟨name, ttl, rfl, h⟩
    exact h

/-- The operation has created the session. -/
abbrev Opened : List (Question × Http.Reply) → String → Prop := Heard opened?

/-- What an operation may ask. -/
inductive May (ks : Keyspace) (c : Commission String) (past : List (Question × Http.Reply)) :
    Question → Prop
  | openSession {name : String} {ttl : Nat} : May ks c past (.openSession name ttl)
  | acquire {session : String} : Opened past session →
      May ks c past (.acquire (ks.key c.errand.own.name) session c.errand.options.owner)
  | get : May ks c past (.get (ks.key c.errand.own.name))
  /-- A session that is of no use is closed. -/
  | discard {session : String} : Opened past session → May ks c past (.closeSession session)
  | keep {session : String} : c.errand.token = some session → May ks c past (.keepSession session)
  | delete {session : String} {r : Http.Reply} {e : Entry} : c.op = .release →
      c.errand.token = some session → (.get (ks.key c.errand.own.name), r) ∈ past →
      entryIn? r = some e → e.session = some session →
      May ks c past (.deleteAt (ks.key c.errand.own.name) e.modifyIndex)
  | close {session : String} : c.op = .release → c.errand.token = some session →
      May ks c past (.closeSession session)

/-- What an operation may come to: the token to keep, and the answer. -/
inductive Ends (ks : Keyspace) (c : Commission String) (past : List (Question × Http.Reply)) :
    Option String × Answer → Prop
  | granted {session : String} {r : Http.Reply} : Opened past session →
      (.acquire (ks.key c.errand.own.name) session c.errand.options.owner, r) ∈ past →
      flagIn? r = some true → Ends ks c past (some session, .acquire (.ok .granted))
  | refused {result : Except LockError Attempt} : result ≠ .ok .granted →
      Ends ks c past (c.errand.token, .acquire result)
  | kept {session body : String} {r : Http.Reply} : c.errand.token = some session →
      (.keepSession session, r) ∈ past → r.content = .ok body →
      Ends ks c past (some session, .refresh (.ok ()))
  | failed {token : Option String} {error : LockError} : token = none ∨ token = c.errand.token →
      Ends ks c past (token, .refresh (.error error))
  | left {token : Option String} {result : Except LockError Unit} :
      token = none ∨ token = c.errand.token → Ends ks c past (token, .release result)

/-- What clients of a keyspace say and come to. -/
def rule (ks : Keyspace) : Rule Question Http.Reply String where
  may := May ks
  ends := Ends ks

/-- An operation that has come to a new token is an attempt that was granted. -/
theorem Ends.granted_of_new {x : Option String × Answer} (h : Ends ks c past x)
    (hx : x.1 = some session) (hne : c.errand.token ≠ some session) :
    x.2 = .acquire (.ok .granted) := by
  cases h with
  | granted => rfl
  | refused => exact absurd hx hne
  | kept ht => exact absurd (ht.trans hx) hne
  | failed h | left h =>
    rcases h with rfl | rfl
    · cases hx
    · exact absurd hx hne

/-- **An attempt that is granted** has taken the key for its own session. -/
theorem Ends.of_granted {x : Option String × Answer} (h : Ends ks c past x)
    (hx : x.2 = .acquire (.ok .granted)) :
    ∃ session r, x.1 = some session ∧ Opened past session ∧
      (.acquire (ks.key c.errand.own.name) session c.errand.options.owner, r) ∈ past ∧
      flagIn? r = some true := by
  cases h with
  | granted ho hm hr => exact ⟨_, _, rfl, ho, hm, hr⟩
  | refused hne =>
    cases hx
    exact absurd rfl hne
  | kept | failed | left => cases hx

/-- **A refresh that went well** has kept the session of the acquisition. -/
theorem Ends.of_kept {x : Option String × Answer} (h : Ends ks c past x)
    (hx : x.2 = .refresh (.ok ())) :
    ∃ session r body, c.errand.token = some session ∧ (.keepSession session, r) ∈ past ∧
      r.content = .ok body := by
  cases h with
  | kept ht hm hr => exact ⟨_, _, _, ht, hm, hr⟩
  | granted | refused | failed | left => cases hx

theorem May.of_deleteAt {q : Question} {key : String} {index : Nat} (h : May ks c past q)
    (hq : q = .deleteAt key index) :
    c.op = .release ∧ ∃ session r e, c.errand.token = some session ∧ (.get key, r) ∈ past ∧
      entryIn? r = some e ∧ e.session = some session ∧ e.modifyIndex = index := by
  cases h with
  | delete hop ht hm he hs =>
    obtain ⟨rfl, rfl⟩ := Question.deleteAt.inj hq
    exact ⟨hop, _, _, _, ht, hm, he, hs, rfl⟩
  | openSession | acquire | get | discard | keep | close => cases hq

theorem May.of_closeSession {q : Question} (h : May ks c past q) (hq : q = .closeSession session) :
    Opened past session ∨ c.op = .release ∧ c.errand.token = some session := by
  cases h with
  | discard ho =>
    cases hq
    exact .inl ho
  | close hop ht =>
    cases hq
    exact .inr ⟨hop, ht⟩
  | openSession | acquire | get | keep | delete => cases hq

/-! ## Single questions -/

theorem eq_some_of_understood {α : Type} {what : String} {a? : Option α} {a : α}
    (h : understood what a? = .ok a) : a? = some a := by
  cases a? with
  | none => cases h
  | some b =>
    cases h
    rfl

theorem exists_content_of_bind {α : Type} {r : Http.Reply} {f : String → Except LockError α} {a : α}
    (h : r.content.bind f = .ok a) : ∃ body, r.content = .ok body ∧ f body = .ok a := by
  cases hc : r.content with
  | error e =>
    rw [hc] at h
    cases h
  | ok body =>
    rw [hc] at h
    exact ⟨body, rfl, h⟩

theorem read_of_understood {α : Type} {r : Http.Reply} {what : String} {f : String → Option α}
    {a : α} (h : (r.content.bind fun body => understood what (f body)) = .ok a) :
    r.content.toOption.bind f = some a := by
  obtain ⟨body, hbody, h⟩ := exists_content_of_bind h
  rw [hbody]
  exact eq_some_of_understood h

theorem keeps_openSession {name : String} {ttl : Nat} :
    (openSession name ttl).Keeps (May ks c)
      (fun past r => ∀ session, r = .ok session → Opened past session) past := by
  refine ⟨.openSession, List.forall_mem_nil _, fun r session h => ?_⟩
  exact ⟨_, r, List.mem_cons_self, read_of_understood h⟩

theorem keeps_acquireKey (h : Opened past session) :
    (acquireKey (ks.key c.errand.own.name) session c.errand.options.owner).Keeps (May ks c)
      (fun past flag => Opened past session ∧ (flag = .ok true → ∃ r,
        (.acquire (ks.key c.errand.own.name) session c.errand.options.owner, r) ∈ past ∧
          flagIn? r = some true)) past := by
  refine ⟨.acquire h, List.forall_mem_nil _, fun r => ⟨h.append [_], fun hr => ?_⟩⟩
  exact ⟨r, List.mem_cons_self, read_of_understood hr⟩

theorem keeps_getKey :
    (getKey (ks.key c.errand.own.name)).Keeps (May ks c) (fun newer found =>
      (∃ p, newer = p :: past) ∧ ∀ e, found = .ok (some e) → ∃ r,
        (.get (ks.key c.errand.own.name), r) ∈ newer ∧ entryIn? r = some e) past := by
  refine ⟨.get, List.forall_mem_nil _, fun r => ⟨⟨_, rfl⟩, fun e he => ?_⟩⟩
  refine ⟨r, List.mem_cons_self, ?_⟩
  split at he
  · cases he
  · obtain ⟨body, hbody, h⟩ := exists_content_of_bind he
    unfold entryIn?
    rw [hbody]
    show (Entry.parseAll? body).bind List.head? = some e
    cases hp : Entry.parseAll? body with
    | none =>
      rw [hp] at h
      cases h
    | some entries =>
      rw [hp] at h
      exact Except.ok.inj h

theorem keeps_keepSession (ht : c.errand.token = some session) :
    (keepSession session).Keeps (May ks c) (fun past r => r = .ok true → ∃ reply body,
      (.keepSession session, reply) ∈ past ∧ reply.content = .ok body) past := by
  refine ⟨.keep ht, List.forall_mem_nil _, fun r hr => ⟨r, ?_⟩⟩
  split at hr
  · cases hr
  · cases hc : r.content with
    | error e =>
      rw [hc] at hr
      cases hr
    | ok body => exact ⟨body, List.mem_cons_self, rfl⟩

theorem keeps_closeSession (h : May ks c past (.closeSession session)) :
    (closeSession session).Keeps (May ks c) (fun _ _ => True) past :=
  ⟨h, List.forall_mem_nil _, fun _ => trivial⟩

/-! ## The operations -/

theorem keeps_ownerOf (h : Opened past session) :
    (ownerOf (ks.key c.errand.own.name)).Keeps (May ks c) (fun past _ => Opened past session)
      past := by
  refine keeps_getKey.bind fun newer found hn => ?_
  obtain ⟨p, rfl⟩ := hn.1
  have ho := h.append [p]
  rcases found with e | (_ | entry) <;> exact ho

theorem keeps_acquire :
    (acquire (ks.key c.errand.own.name) c.errand.options c.errand.token).Keeps (May ks c)
      (fun past x => Ends ks c past (x.1, .acquire x.2)) [] := by
  refine keeps_openSession.bind fun past r h => ?_
  rcases r with e | session
  · exact .refused (by simp)
  have ho := h session rfl
  refine Talk.Keeps.owing ((keeps_acquireKey ho).bind fun past r ⟨ho, hr⟩ => ?_)
    fun newer => List.forall_mem_singleton.2 (.discard (ho.append newer))
  rcases r with e | (_ | _)
  · exact (keeps_closeSession (.discard ho)).discard.bind fun _ _ _ => .refused (by simp)
  · refine (keeps_ownerOf ho).bind fun past owner ho => ?_
    exact (keeps_closeSession (.discard ho)).discard.bind fun _ _ _ => .refused (by simp)
  · obtain ⟨r, hm, hflag⟩ := hr rfl
    exact .granted ho hm hflag

theorem keeps_refresh :
    (refresh c.errand.options c.errand.token).Keeps (May ks c)
      (fun past x => Ends ks c past (x.1, .refresh x.2)) past := by
  cases ht : c.errand.token with
  | none => exact .failed (.inl rfl)
  | some session =>
    refine (keeps_keepSession ht).bind fun past r h => ?_
    rcases r with e | (_ | _)
    · exact .failed (.inr ht.symm)
    · exact .failed (.inl rfl)
    · obtain ⟨reply, body, hm, hbody⟩ := h rfl
      exact .kept ht hm hbody

theorem keeps_deleteHeld (hop : c.op = .release) (ht : c.errand.token = some session) :
    (deleteHeld (ks.key c.errand.own.name) session).Keeps (May ks c) (fun _ _ => True) past := by
  refine keeps_getKey.bind fun newer found hn => ?_
  rcases found with e | (_ | entry)
  · trivial
  · trivial
  · obtain ⟨r, hm, he⟩ := hn.2 entry rfl
    show Talk.Keeps _ _ _ (if entry.belongsTo session then _ else _)
    split
    next hb => exact ⟨.delete hop ht hm he (eq_of_beq hb), List.forall_mem_nil _, fun _ => trivial⟩
    · trivial

theorem keeps_release (hop : c.op = .release) :
    (release (ks.key c.errand.own.name) c.errand.token).Keeps (May ks c)
      (fun past x => Ends ks c past (x.1, .release x.2)) past := by
  cases ht : c.errand.token with
  | none => exact .left (.inl rfl)
  | some session =>
    refine (keeps_deleteHeld hop ht).bind fun past r _ => ?_
    rcases r with e | _
    · exact .left (.inr ht.symm)
    · refine (keeps_closeSession (.close hop ht)).bind fun past r _ => ?_
      rcases r with e | _
      · exact .left (.inr ht.symm)
      · exact .left (.inl rfl)

/-- **The operations keep the rule**, whatever the server replies. -/
theorem rule_binds (ks : Keyspace) (own : Nat → Options) :
    (rule ks).Binds fun i => ⟨own i, ks.adapter⟩ := by
  intro c
  show (ks.adapter c.errand c.op).Keeps _ _ _
  unfold Keyspace.adapter
  cases ho : c.op with
  | acquire => exact keeps_acquire.bind fun _ _ h => h
  | refresh => exact keeps_refresh.bind fun _ _ h => h
  | release => exact (keeps_release ho).bind fun _ _ h => h

end LeaseLock.Consul
