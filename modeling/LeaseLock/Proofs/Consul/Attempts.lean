import LeaseLock.Proofs.Consul.Dialogues
import LeaseLock.Proofs.Remote.Courses

/-!
# No session is left behind

**Attempts** (`Attempted`, `Tried`). Every course that an attempt to take a key can go, with all
that is sent and heard on it. Without a session that it can read the id of, an attempt is over. With
one it tries for the key; if it fails to get it, it closes the session (`Discards`). An attempt that
is cut off owes the session its end, and if it is cut off while it waits for just that, the session
is closed twice.

**What becomes of the session** (`Tidy`). It is kept and not closed, or it is closed and the token
stays as it was. No other session is closed.

Main result: `no_session_left`.
-/

namespace LeaseLock.Consul

open Talk (Course)

variable {ks : Keyspace} {e : Errand String} {session : String}
  {sent : List (Question × Option Http.Reply)}

/-! ## The courses of an attempt -/

/-- What an attempt does once it has a session. -/
def tryFor (key : String) (o : Options) (token : Option String) (session : String) :
    Dialogue (Option String × Except LockError Attempt) := do
  match ← acquireKey key session o.owner with
  | .ok true => return (some session, .ok .granted)
  | .ok false =>
    let owner ← ownerOf key
    discard (closeSession session)
    return (token, .ok (.occupied owner))
  | .error error =>
    discard (closeSession session)
    return (token, .error error)

theorem acquire_eq (key : String) (o : Options) (token : Option String) :
    acquire key o token = (openSession o.name (lifetime o)).bind fun
      | .error error => .done (token, .error error)
      | .ok session => (tryFor key o token session).owing [.closeSession session] := rfl

/-- The token to keep, and how the attempt came out. -/
abbrev Outcome := Option String × Except LockError Attempt

/-- A session is closed, and then the attempt comes to its outcome. -/
inductive Discards (session : String) (x : Outcome) :
    List (Question × Option Http.Reply) → Option Outcome → Prop
  | closed {r : Http.Reply} : Discards session x [(.closeSession session, some r)] (some x)
  | cut : Discards session x [(.closeSession session, none)] none

/-- What an attempt can come to once it has a session. -/
inductive Tried (key : String) (o : Options) (token : Option String) (session : String) :
    List (Question × Option Http.Reply) → Option Outcome → Prop
  | granted {r : Http.Reply} : flagIn? r = some true →
      Tried key o token session [(.acquire key session o.owner, some r)]
        (some (some session, .ok .granted))
  /-- The key belongs to another session. -/
  | refused {r g : Http.Reply} {owner : Option String} {sent : List (Question × Option Http.Reply)}
      {result : Option Outcome} : flagIn? r = some false →
      Discards session (token, .ok (.occupied owner)) sent result →
      Tried key o token session
        ((.acquire key session o.owner, some r) :: (.get key, some g) :: sent) result
  | failed {r : Http.Reply} {error : LockError} {sent : List (Question × Option Http.Reply)}
      {result : Option Outcome} : flagIn? r = none →
      Discards session (token, .error error) sent result →
      Tried key o token session ((.acquire key session o.owner, some r) :: sent) result
  | cutTaking : Tried key o token session [(.acquire key session o.owner, none)] none
  | cutAsking {r : Http.Reply} : flagIn? r = some false →
      Tried key o token session [(.acquire key session o.owner, some r), (.get key, none)] none

/-- What an attempt can come to. -/
inductive Attempted (ks : Keyspace) (e : Errand String) :
    List (Question × Option Http.Reply) → Option Outcome → Prop
  /-- Whether there is a session will never be known. -/
  | cut : Attempted ks e [(.openSession e.options.name (lifetime e.options), none)] none
  /-- The reply tells of no session. -/
  | unopened {r : Http.Reply} {error : LockError} : sessionIn? r = none →
      Attempted ks e [(.openSession e.options.name (lifetime e.options), some r)]
        (some (e.token, .error error))
  | tried {r : Http.Reply} {session : String} {sent : List (Question × Option Http.Reply)}
      {x : Outcome} : sessionIn? r = some session →
      Tried (ks.key e.own.name) e.options e.token session sent (some x) →
      Attempted ks e ((.openSession e.options.name (lifetime e.options), some r) :: sent) (some x)
  /-- The attempt is cut off, and owes the session its end. -/
  | abandoned {r : Http.Reply} {session : String} {sent : List (Question × Option Http.Reply)} :
      sessionIn? r = some session →
      Tried (ks.key e.own.name) e.options e.token session sent none →
      Attempted ks e ((.openSession e.options.name (lifetime e.options), some r) ::
        (sent ++ [(.closeSession session, none)])) none

theorem unread_of_not_understood {α : Type} {r : Http.Reply} {what : String}
    {f : String → Option α} {error : LockError}
    (h : (r.content.bind fun body => understood what (f body)) = .error error) :
    r.content.toOption.bind f = none := by
  cases hc : r.content with
  | error _ => rfl
  | ok body =>
    rw [hc] at h
    change understood what (f body) = .error error at h
    show f body = none
    cases hf : f body with
    | none => rfl
    | some a =>
      rw [hf] at h
      cases h

variable {key : String} {o : Options} {token : Option String} {x : Outcome} {r : Option Outcome}

theorem discards_of_course
    (h : Course ((Functor.discard (closeSession session)).bind fun _ => .done x) sent r) :
    Discards session x sent r := by
  obtain ⟨u, rfl, hd⟩ := Course.of_map h
  obtain ⟨u', rfl, hc⟩ := Course.of_discard hd
  rcases Course.of_reading hc with ⟨reply, rfl, rfl⟩ | ⟨rfl, rfl⟩
  · exact .closed
  · exact .cut

theorem asked_of_course {owner : Option (Option String)} (h : Course (ownerOf key) sent owner) :
    (∃ g known, sent = [(.get key, some g)] ∧ owner = some known) ∨
      sent = [(.get key, none)] ∧ owner = none := by
  rcases Course.of_read h with ⟨g, s, rfl, hrest⟩ | hcut
  · generalize (if g.isNotFound then _ else _ : Except LockError (Option Entry)) = found at hrest
    rcases found with error | (_ | entry)
    all_goals
      obtain ⟨rfl, rfl⟩ := Course.of_done hrest
      exact .inl ⟨g, _, rfl, rfl⟩
  · exact .inr hcut

/-- **Every course of an attempt that has a session** is one of these. -/
theorem tried_of_course (h : Course (tryFor key o token session) sent r) :
    Tried key o token session sent r := by
  rcases Course.of_read h with ⟨reply, s, rfl, hrest⟩ | ⟨rfl, rfl⟩
  · cases hflag : reply.content.bind fun body => understood "acquire" (flag? body) with
    | error error =>
      rw [hflag] at hrest
      exact .failed (unread_of_not_understood hflag) (discards_of_course hrest)
    | ok flag =>
      rw [hflag] at hrest
      have hread : flagIn? reply = some flag := read_of_understood hflag
      cases flag with
      | true =>
        obtain ⟨rfl, rfl⟩ := Course.of_done hrest
        exact .granted hread
      | false =>
        rcases Course.of_bind hrest with ⟨owner, s₃, s₄, rfl, hask, hclose⟩ | ⟨rfl, hask⟩
        · rcases asked_of_course hask with ⟨g, known, rfl, hknown⟩ | ⟨-, hknown⟩
          · cases hknown
            exact .refused hread (discards_of_course hclose)
          · cases hknown
        · rcases asked_of_course hask with ⟨g, known, -, hknown⟩ | ⟨rfl, -⟩
          · cases hknown
          · exact .cutAsking hread
  · exact .cutTaking

/-- **Every course of an attempt** is one of these. -/
theorem attempted_of_course {result : Option (Option String × Answer)}
    (h : Course (ks.adapter e .acquire) sent result) :
    ∃ r, result = r.map (fun x => (x.1, .acquire x.2)) ∧ Attempted ks e sent r := by
  obtain ⟨r, rfl, hacq⟩ := Course.of_map h
  refine ⟨r, rfl, ?_⟩
  rw [acquire_eq] at hacq
  rcases Course.of_read hacq with ⟨reply, s, rfl, hrest⟩ | ⟨rfl, rfl⟩
  · cases hopened : reply.content.bind fun body => understood "session" (sessionId? body) with
    | error error =>
      rw [hopened] at hrest
      obtain ⟨rfl, rfl⟩ := Course.of_done hrest
      exact .unopened (unread_of_not_understood hopened)
    | ok session =>
      rw [hopened] at hrest
      have hsession : sessionIn? reply = some session := read_of_understood hopened
      rcases Course.of_owing hrest with ⟨x, rfl, hdone⟩ | ⟨rfl, s, rfl, hcut⟩
      · exact .tried hsession (tried_of_course hdone)
      · exact .abandoned hsession (tried_of_course hcut)
  · exact .cut

/-! ## What becomes of the session -/

/-- The session that a question asks to close. -/
def Question.closes? : Question → Option String
  | .closeSession session => some session
  | _ => none

/-- The sessions that the attempt has asked to close, in order. -/
def closings (sent : List (Question × Option Http.Reply)) : List String :=
  sent.filterMap (·.1.closes?)

/-- The session of an attempt is either kept, or closed and forgotten. -/
inductive Tidy (token : Option String) (sent : List (Question × Option Http.Reply)) :
    Option (Option String × Answer) → Prop
  /-- No session was created that is known of, and nothing more was sent. -/
  | unopened {name : String} {ttl : Nat} {a : Option Http.Reply}
      {result : Option (Option String × Answer)} : Talk.given opened? sent = none →
      sent = [(.openSession name ttl, a)] → kept token result = token →
      (∀ t, result ≠ some (t, .acquire (.ok .granted))) → Tidy token sent result
  | kept {session : String} : Talk.given opened? sent = some session → closings sent = [] →
      Tidy token sent (some (some session, .acquire (.ok .granted)))
  | closed {session : String} {answer : Except LockError Attempt} :
      Talk.given opened? sent = some session → closings sent = [session] → answer ≠ .ok .granted →
      Tidy token sent (some (token, .acquire answer))
  /-- The attempt is cut off; if it was closing the session, the session is closed once more. -/
  | abandoned {session : String} : Talk.given opened? sent = some session →
      closings sent = [session] ∨ closings sent = [session, session] → Tidy token sent none

theorem Discards.closings {x : Outcome} (h : Discards session x sent r) :
    closings sent = [session] ∧ (∀ y, r = some y → y = x) := by
  cases h with
  | closed =>
    refine ⟨rfl, ?_⟩
    rintro y ⟨⟩
    rfl
  | cut => exact ⟨rfl, nofun⟩

/-- An attempt that comes to its end has closed its session, unless the key is its own. -/
theorem Tried.closed_of_done {x : Outcome} (h : Tried key o token session sent (some x)) :
    x = (some session, .ok .granted) ∧ closings sent = [] ∨
      x.1 = token ∧ x.2 ≠ .ok .granted ∧ closings sent = [session] := by
  cases h with
  | granted => exact .inl ⟨rfl, rfl⟩
  | refused _ hd =>
    obtain ⟨hc, hx⟩ := hd.closings
    rw [hx x rfl]
    exact .inr ⟨rfl, nofun, hc⟩
  | failed _ hd =>
    obtain ⟨hc, hx⟩ := hd.closings
    rw [hx x rfl]
    exact .inr ⟨rfl, nofun, hc⟩

/-- An attempt that is cut off has closed its session at most once by itself. -/
theorem Tried.closed_of_cut (h : Tried key o token session sent none) :
    closings sent = [] ∨ closings sent = [session] := by
  cases h with
  | cutTaking | cutAsking => exact .inl rfl
  | refused _ hd => exact .inr hd.closings.1
  | failed _ hd => exact .inr hd.closings.1

theorem given_of_sessionIn? {reply : Http.Reply} {name : String} {ttl : Nat}
    (h : sessionIn? reply = some session) :
    Talk.given opened? ((.openSession name ttl, some reply) :: sent) = some session := by
  simp [Talk.given, opened?, h]

theorem Attempted.tidy (h : Attempted ks e sent r) :
    Tidy e.token sent (r.map fun x => (x.1, .acquire x.2)) := by
  cases h with
  | cut => exact .unopened rfl rfl rfl (by simp)
  | unopened hn => exact .unopened (by simp [Talk.given, opened?, hn]) rfl rfl (by simp)
  | @tried reply session sent x hs ht =>
    rcases ht.closed_of_done with ⟨rfl, hc⟩ | ⟨hx, hne, hc⟩
    · exact .kept (given_of_sessionIn? hs) hc
    · obtain ⟨token, answer⟩ := x
      cases hx
      exact .closed (given_of_sessionIn? hs) hc hne
  | @abandoned reply session sent hs ht =>
    have hclosed : closings ((.openSession e.options.name (lifetime e.options), some reply) ::
        (sent ++ [(.closeSession session, none)])) = closings sent ++ [session] :=
      List.filterMap_append
    refine .abandoned (given_of_sessionIn? hs) ?_
    rw [hclosed]
    rcases ht.closed_of_cut with hc | hc
    · rw [hc]
      exact .inl rfl
    · rw [hc]
      exact .inr rfl

/-- **No attempt leaves a session behind.** Whatever is replied, and wherever the attempt is cut
off: once it knows of a session that was created for it, either the attempt is granted, keeps the
session and does not ask to close it, or the token stays as it was and the session is closed: once
if the attempt comes to its end, and once or twice if it is cut off. It closes no other session, and
if it knows of none, it sends nothing after the request for one. So it is with every server. -/
theorem no_session_left (ks : Keyspace) :
    (∀ e sent result, Course (ks.adapter e .acquire) sent result → Tidy e.token sent result) ∧
      ∀ (S : Type) [Server S Question Http.Reply] (r : Remote S Question Http.Reply String)
        (site : Site) (o : Options), r.adapter = ks.adapter →
        ∃ sent result, Tidy (r.token? site.home) sent result ∧
          (r.settled site o .acquire).server = Talk.tellAll r.server (sent.map Prod.fst) ∧
          (r.settled site o .acquire).token? site.home = kept (r.token? site.home) result ∧
          ∀ a, (r.call site o .acquire).2 = .answered a ↔ ∃ token, result = some (token, a) := by
  have tidy : ∀ e sent result, Course (ks.adapter e .acquire) sent result →
      Tidy e.token sent result := by
    intro e sent result h
    obtain ⟨r, rfl, ha⟩ := attempted_of_course h
    exact ha.tidy
  refine ⟨tidy, ?_⟩
  intro S _ r site o hr
  obtain ⟨sent, result, hcourse, hserver, htoken, hanswer⟩ := r.call_follows site o .acquire
  rw [hr] at hcourse
  exact ⟨sent, result, tidy _ _ _ hcourse, hserver, htoken, hanswer⟩

/-- An agent that creates a session, gives the key to nobody and does not say who has it, and takes
its time to close the session. -/
def reluctant : Remote (Prompter Question Http.Reply) Question Http.Reply String where
  server := {
    answers := [fun _ => some (.response 200 "[\"s\"]"), fun _ => some (.response 200 "false"),
      fun _ => some (.response 404 ""), fun _ => none]
    final := .response 200 "true" }
  adapter := (Keyspace.mk ⟨"", none⟩ "").adapter

/-- An attempt to take the key of a lock. -/
def taking : Site := ⟨0, .direct 0, { owner := "a", name := "job" }⟩

/-- Nothing comes back. -/
def isSilent : Reception → Bool
  | .silent => true
  | .answered _ | .due _ _ => false

/-- The attempt is cut off while it closes its session, which is then closed once more. -/
theorem no_session_left_reluctant : ∃ sent, Tidy none sent none ∧
    (reluctant.settled taking taking.own .acquire).token? 0 = none ∧
    (reluctant.settled taking taking.own .acquire).server =
      Talk.tellAll reluctant.server (sent.map Prod.fst) ∧
    (reluctant.settled taking taking.own .acquire).server.asked =
      [.openSession "job" 10, .acquire "job" "s" "a", .get "job", .closeSession "s",
        .closeSession "s"] := by
  obtain ⟨sent, result, htidy, hserver, htoken, hanswer⟩ :=
    (no_session_left (Keyspace.mk ⟨"", none⟩ "")).2 _ reluctant taking taking.own rfl
  have hsilent : isSilent (reluctant.call taking taking.own .acquire).2 = true := by
    decide +kernel
  cases result with
  | none => exact ⟨sent, htidy, htoken, hserver, by decide +kernel⟩
  | some x =>
    rw [(hanswer x.2).2 ⟨x.1, rfl⟩] at hsilent
    cases hsilent

end LeaseLock.Consul
