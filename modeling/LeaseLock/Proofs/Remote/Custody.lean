import LeaseLock.Proofs.Consul.Attempts
import LeaseLock.Proofs.Etcd.Attempts
import LeaseLock.Proofs.Mongo.Dialogues

/-!
# The life of a token

**Calls** (`Posting`, `Ledger`). An adapter that starts without a token makes one complete call
after another, each with options and numbers of its own. Every call takes a course of its talk, with
any replies, and finds the token that the call before it has left.

**Custody** (`Answer.custody`, `stored`). What an answer makes of the token: a grant stores the new
one, a confirmed release clears it, and where a loss is known for good (`losing`) the news of it
does too. Every other answer leaves the token as it was.

**Custodians** (`Custodian`). What has to be known of the three operations of an adapter; the rest
is the same for all adapters (`Custodian.tokenLife`).

Main result: `token_life`.
-/

namespace LeaseLock

variable {Q A τ : Type} {ad : Adapter Q A τ} {losing : Bool} {gives : Q → A → Option τ}
  {e : Errand τ} {op : Op} {sent : List (Q × Option A)} {token fresh : Option τ}
  {x : Option τ × Answer}

/-! ## Custody -/

/-- The token that a call leaves behind, by its answer: `fresh` is the one that it has created. -/
def Answer.custody (losing : Bool) (fresh token : Option τ) : Answer → Option τ
  | .acquire (.ok .granted) => fresh
  | .refresh (.error (.lost _)) => if losing then none else token
  | .release (.ok ()) => none
  | _ => token

theorem Answer.custody_acquire {r : Except LockError Attempt} (hr : r ≠ .ok .granted) :
    (Answer.acquire r).custody losing fresh token = token := by
  unfold custody
  split
  next heq => exact absurd (Answer.acquire.inj heq) hr
  next heq => cases heq
  next heq => cases heq
  · rfl

theorem Answer.custody_refresh {r : Except LockError Unit}
    (hr : losing = true → ∀ loss, r ≠ .error (.lost loss)) :
    (Answer.refresh r).custody losing fresh token = token := by
  unfold custody
  split
  next heq => cases heq
  next loss heq =>
    split
    next hlosing => exact absurd (Answer.refresh.inj heq) (hr hlosing loss)
    · rfl
  next heq => cases heq
  · rfl

theorem Answer.custody_release {r : Except LockError Unit} (hr : r ≠ .ok ()) :
    (Answer.release r).custody losing fresh token = token := by
  cases r with
  | error error => rfl
  | ok u => exact absurd rfl hr

theorem Answer.custody_none {a : Answer} (hg : a ≠ .acquire (.ok .granted)) :
    a.custody losing fresh (none : Option τ) = none := by
  unfold custody
  split
  · exact absurd rfl hg
  · exact ite_self _
  · rfl
  · rfl

theorem Comes.custody (h : Comes token .refresh x) : x.1 = x.2.custody true fresh token := by
  cases h with
  | tokenless hn => exact hn.symm
  | lost => rfl
  | kept _ hr =>
    refine (Answer.custody_refresh ?_).symm
    intro _ loss hloss
    exact (hr _ hloss).2 loss rfl

/-! ## Custodians -/

/-- The operations of the adapter treat the token as `Answer.custody` says, where an attempt creates
what its replies give. -/
structure Custodian (ad : Adapter Q A τ) (losing : Bool) (gives : Q → A → Option τ) : Prop where
  acquires : ∀ {e sent x}, (ad e .acquire).Course sent (some x) → x.2.op = .acquire ∧
    x.1 = x.2.custody losing (Talk.given gives sent) e.token ∧
    (x.2 = .acquire (.ok .granted) → Talk.given gives sent ≠ none)
  refreshes : ∀ e, (ad e .refresh).Ends fun x =>
    x.2.op = .refresh ∧ ∀ fresh, x.1 = x.2.custody losing fresh e.token
  releases : ∀ e, (ad e .release).Ends fun x =>
    x.2.op = .release ∧ ∀ fresh, x.1 = x.2.custody losing fresh e.token
  /-- Without a token there is nothing to release. -/
  spares : ∀ {e}, e.token = none → ad e .release = .done (none, .release (.ok ()))
  /-- What a release says hangs on the token and on the options alone. -/
  repeats : ∀ {e e'}, e'.own = e.own → e'.options = e.options → e'.token = e.token →
    ad e' .release = ad e .release

theorem custody_of_outcome {P : Option (Option τ × Except LockError Attempt) → Prop}
    (h : ∃ r : Option (Option τ × Except LockError Attempt),
      some x = r.map (fun y => (y.1, Answer.acquire y.2)) ∧ P r)
    (hP : ∀ y, P (some y) → y.1 = (Answer.acquire y.2).custody losing fresh token ∧
      (y.2 = .ok .granted → fresh ≠ none)) :
    x.2.op = .acquire ∧ x.1 = x.2.custody losing fresh token ∧
      (x.2 = .acquire (.ok .granted) → fresh ≠ none) := by
  obtain ⟨r, hr, hy⟩ := h
  cases r with
  | none => cases hr
  | some y =>
    cases hr
    obtain ⟨htoken, hgranted⟩ := hP y hy
    exact ⟨rfl, htoken, fun hg => hgranted (Answer.acquire.inj hg)⟩

theorem Custodian.call (hc : Custodian ad losing gives) (h : (ad e op).Course sent (some x)) :
    x.2.op = op ∧ x.1 = x.2.custody losing (Talk.given gives sent) e.token ∧
      (x.2 = .acquire (.ok .granted) → Talk.given gives sent ≠ none) := by
  cases op with
  | acquire => exact hc.acquires h
  | refresh =>
    obtain ⟨hop, htoken⟩ := h.ends (hc.refreshes e)
    refine ⟨hop, htoken _, ?_⟩
    intro hg
    rw [hg] at hop
    cases hop
  | release =>
    obtain ⟨hop, htoken⟩ := h.ends (hc.releases e)
    refine ⟨hop, htoken _, ?_⟩
    intro hg
    rw [hg] at hop
    cases hop

/-! ## One call after another -/

/-- A complete call: what it was made with, what it sent and heard, and how it was answered. -/
structure Posting (Q A τ : Type) where
  errand : Errand τ
  op : Op
  sent : List (Q × Option A)
  answer : Answer

/-- An adapter has made these calls, the latest first, and keeps the token. -/
inductive Ledger (ad : Adapter Q A τ) : List (Posting Q A τ) → Option τ → Prop
  | opened : Ledger ad [] none
  | made {postings : List (Posting Q A τ)} {e : Errand τ} {op : Op} {sent : List (Q × Option A)}
      {token : Option τ} {a : Answer} : Ledger ad postings e.token →
      (ad e op).Course sent (some (token, a)) → Ledger ad (⟨e, op, sent, a⟩ :: postings) token

/-- A call to a service behind a server is the next one of its adapter, if it is answered. -/
theorem Remote.ledger_of_call {S : Type} [Server S Q A] (r : Remote S Q A τ) (site : Site)
    (o : Options) (op : Op) {a : Answer} {postings : List (Posting Q A τ)}
    (h : Ledger r.adapter postings (r.token? site.home))
    (ha : (r.call site o op).2 = .answered a) :
    ∃ sent, Ledger r.adapter (⟨r.errand site o, op, sent, a⟩ :: postings)
      ((r.call site o op).1.token? site.home) := by
  obtain ⟨sent, result, hcourse, -, htoken, hanswer⟩ := r.call_follows site o op
  obtain ⟨token, rfl⟩ := (hanswer a).1 ha
  rw [settled_of_answered ha] at htoken
  rw [htoken]
  exact ⟨sent, .made h hcourse⟩

/-- The token that the calls leave behind, the latest first. -/
def stored (losing : Bool) (gives : Q → A → Option τ) : List (Posting Q A τ) → Option τ
  | [] => none
  | v :: earlier => v.answer.custody losing (Talk.given gives v.sent) (stored losing gives earlier)

/-- What becomes of the token of an adapter. -/
structure TokenLife (ad : Adapter Q A τ) (losing : Bool) (gives : Q → A → Option τ) : Prop where
  /-- The token is what the calls have made of it. -/
  stored : ∀ postings token, Ledger ad postings token → token = stored losing gives postings
  /-- A call is answered in kind, and one that is granted has created a token. -/
  answered : ∀ postings token, Ledger ad postings token → ∀ v ∈ postings, v.answer.op = v.op ∧
    (v.answer = .acquire (.ok .granted) → Talk.given gives v.sent ≠ none)
  /-- A release that failed can be repeated with the same token. -/
  repeated : ∀ v postings token, Ledger ad (v :: postings) token → v.op = .release →
    v.answer ≠ .release (.ok ()) → token ≠ none ∧ token = v.errand.token ∧
      ∀ e : Errand τ, e.token = token → e.own = v.errand.own → e.options = v.errand.options →
        ad e .release = ad v.errand .release
  /-- After one that went well there is nothing to send, until the lock is granted again. -/
  spared : ∀ newer v older token, Ledger ad (newer ++ v :: older) token →
    v.answer = .release (.ok ()) → (∀ y ∈ newer, y.answer ≠ .acquire (.ok .granted)) →
    ∀ e : Errand τ, e.token = token → ad e .release = .done (none, .release (.ok ()))

namespace Ledger

variable {postings older : List (Posting Q A τ)}

theorem stored_eq (hc : Custodian ad losing gives) (h : Ledger ad postings token) :
    token = stored losing gives postings := by
  induction h with
  | opened => rfl
  | @made postings e op sent token a _ hcourse ih =>
    obtain ⟨-, htoken, -⟩ := hc.call hcourse
    show token = a.custody losing (Talk.given gives sent) (stored losing gives postings)
    rw [← ih]
    exact htoken

theorem answered (hc : Custodian ad losing gives) (h : Ledger ad postings token) :
    ∀ v ∈ postings, v.answer.op = v.op ∧
      (v.answer = .acquire (.ok .granted) → Talk.given gives v.sent ≠ none) := by
  induction h with
  | opened => exact List.forall_mem_nil _
  | made _ hcourse ih =>
    obtain ⟨hop, -, hgranted⟩ := hc.call hcourse
    exact List.forall_mem_cons.2 ⟨⟨hop, hgranted⟩, ih⟩

end Ledger

/-- Nothing brings a token back but a grant. -/
theorem stored_none {newer older : List (Posting Q A τ)} {v : Posting Q A τ}
    (hv : v.answer = .release (.ok ())) (hn : ∀ y ∈ newer, y.answer ≠ .acquire (.ok .granted)) :
    stored losing gives (newer ++ v :: older) = none := by
  induction newer with
  | nil =>
    show v.answer.custody losing _ _ = none
    rw [hv]
    rfl
  | cons y newer ih =>
    obtain ⟨hy, hn⟩ := List.forall_mem_cons.1 hn
    show y.answer.custody losing _ (stored losing gives (newer ++ v :: older)) = none
    rw [ih hn]
    exact Answer.custody_none hy

/-- **Every custodian leads its token through the same life.** -/
theorem Custodian.tokenLife (hc : Custodian ad losing gives) : TokenLife ad losing gives where
  stored _ _ h := h.stored_eq hc
  answered _ _ h := h.answered hc
  repeated v postings token h hop hne := by
    cases h with
    | @made _ e op sent _ a _ hcourse =>
      cases hop
      obtain ⟨ha, htoken, -⟩ := hc.call hcourse
      have hkept : token = e.token := by
        cases a with
        | acquire | refresh => cases ha
        | release r => exact htoken.trans (Answer.custody_release (mt (congrArg _) hne))
      refine ⟨?_, hkept, ?_⟩
      · intro hnone
        have hdone := hc.spares (hkept.symm.trans hnone)
        rw [hdone] at hcourse
        cases hcourse
        exact hne rfl
      · intro e' htoken' hown hoptions
        exact hc.repeats hown hoptions (htoken'.trans hkept)
  spared newer v older token h hv hn e he := by
    apply hc.spares
    rw [he, h.stored_eq hc]
    exact stored_none hv hn

/-! ## Sessions -/

namespace Consul

open Talk

theorem Attempted.custody {ks : Keyspace} {e : Errand String}
    {sent : List (Question × Option Http.Reply)} {x : Outcome}
    (h : Attempted ks e sent (some x)) :
    x.1 = (Answer.acquire x.2).custody true (given opened? sent) e.token ∧
      (x.2 = .ok .granted → given opened? sent ≠ none) := by
  cases h with
  | unopened => exact ⟨rfl, nofun⟩
  | @tried reply session sent _ hs ht =>
    rw [given_of_sessionIn? hs]
    refine ⟨?_, fun _ => Option.some_ne_none session⟩
    rcases ht.closed_of_done with ⟨rfl, -⟩ | ⟨hx, hne, -⟩
    · rfl
    · exact hx.trans (Answer.custody_acquire hne).symm

theorem ends_release (key : String) (token : Option String) :
    (release key token).Ends fun x => ∀ fresh, x.1 =
      (Answer.release x.2).custody true fresh token := by
  cases token with
  | none => exact fun _ => rfl
  | some session =>
    refine (ends_true (deleteHeld key session)).bind fun r _ => ?_
    cases r with
    | error error => exact fun _ => rfl
    | ok u =>
      refine (ends_true (closeSession session)).bind fun r _ => ?_
      cases r with
      | error error => exact fun _ => rfl
      | ok u => exact fun _ => rfl

theorem custodian (ks : Keyspace) : Custodian ks.adapter true opened? where
  acquires h := custody_of_outcome (attempted_of_course h) fun _ ha => ha.custody
  refreshes e := by
    exact (tokened ks e .refresh).mono fun x h => ⟨h.op, fun fresh => h.custody⟩
  releases e := (ends_release _ e.token).bind fun _ h => ⟨rfl, h⟩
  spares {e} h := by
    obtain ⟨own, options, token, calls, attempts⟩ := e
    cases h
    rfl
  repeats {e e'} hown _ htoken := by
    show ((release (ks.key e'.own.name) e'.token).bind _) = _
    rw [hown, htoken]
    rfl

end Consul

/-! ## Leases -/

namespace Etcd

open Talk

theorem Attempted.custody {ks : Keyspace} {e : Errand Int}
    {sent : List (Request × Option Reply)} {x : Outcome} (h : Attempted ks e sent (some x)) :
    x.1 = (Answer.acquire x.2).custody true (given granted? sent) e.token ∧
      (x.2 = .ok .granted → given granted? sent ≠ none) := by
  cases h with
  | ungranted => exact ⟨rfl, nofun⟩
  | @tried reply lease sent _ hs ht =>
    rw [given_of_leased hs]
    refine ⟨?_, fun _ => Option.some_ne_none lease⟩
    rcases ht.token_of_done with rfl | ⟨hx, hne⟩
    · rfl
    · exact hx.trans (Answer.custody_acquire hne).symm

theorem ends_release (token : Option Int) : (release token).Ends fun x => ∀ fresh, x.1 =
    (Answer.release x.2).custody true fresh token := by
  cases token with
  | none => exact fun _ => rfl
  | some lease =>
    refine (ends_true (revoke lease)).bind fun r _ => ?_
    cases r with
    | error error => exact fun _ => rfl
    | ok u => exact fun _ => rfl

theorem custodian (ks : Keyspace) : Custodian ks.adapter true granted? where
  acquires h := custody_of_outcome (attempted_of_course h) fun _ ha => ha.custody
  refreshes e := (tokened ks e .refresh).mono fun _ h => ⟨h.op, fun _ => h.custody⟩
  releases e := (ends_release e.token).bind fun _ h => ⟨rfl, h⟩
  spares {e} h := by
    obtain ⟨own, options, token, calls, attempts⟩ := e
    cases h
    rfl
  repeats {e e'} _ _ htoken := by
    show (release e'.token).bind _ = _
    rw [htoken]
    rfl

end Etcd

/-! ## Documents -/

namespace Mongo

open Talk

/-- The token that an attempt has made up for itself. -/
def minted? : Command → Reply → Option String
  | .take _ _ token, _ => some token
  | _, _ => none

theorem ends_acquire (collection : String) (o : Options) (token : Option String) (fresh : String) :
    (acquire collection o token fresh).Ends fun x =>
      x.1 = (Answer.acquire x.2).custody false (some fresh) token := by
  refine (ends_true (take collection o fresh)).bind fun r _ => ?_
  rcases r with error | (_ | r)
  · rfl
  · rfl
  · show Talk.Ends _ (if r.token = fresh then _ else _)
    split
    · rfl
    · rfl

theorem given_of_course {c : Collection} {e : Errand String}
    {sent : List (Command × Option Reply)} {x : Option String × Answer}
    (h : (c.adapter e .acquire).Course sent (some x)) :
    given minted? sent = some (c.mint e.attempts) := by
  rcases Course.of_ask h with ⟨reply, s, rfl, -⟩ | ⟨-, hn⟩
  · rfl
  · cases hn

theorem ends_refresh (collection : String) (o : Options) (token : Option String) :
    (refresh collection o token).Ends fun x => ∀ fresh, x.1 =
      (Answer.refresh x.2).custody false fresh token := by
  cases token with
  | none => exact fun _ => rfl
  | some t =>
    refine (ends_question _).bind fun reply _ => ?_
    cases reply with
    | count n =>
      cases n with
      | zero => exact fun _ => rfl
      | succ n => exact fun _ => rfl
    | found | failure | writeFailure => exact fun _ => rfl

theorem ends_release (collection : String) (o : Options) (token : Option String) :
    (release collection o token).Ends fun x => ∀ fresh, x.1 =
      (Answer.release x.2).custody false fresh token := by
  cases token with
  | none => exact fun _ => rfl
  | some t =>
    refine (ends_question _).bind fun reply _ => ?_
    cases reply with
    | count | found | failure | writeFailure => exact fun _ => rfl

theorem custodian (c : Collection) : Custodian c.adapter false minted? where
  acquires {e sent x} h := by
    rw [given_of_course h]
    have hends : (c.adapter e .acquire).Ends fun x => x.2.op = .acquire ∧
        x.1 = x.2.custody false (some (c.mint e.attempts)) e.token :=
      (ends_acquire c.name e.options e.token (c.mint e.attempts)).bind fun _ h => ⟨rfl, h⟩
    obtain ⟨hop, htoken⟩ := h.ends hends
    exact ⟨hop, htoken, fun _ => Option.some_ne_none _⟩
  refreshes e := (ends_refresh c.name e.options e.token).bind fun _ h => ⟨rfl, h⟩
  releases e := (ends_release c.name e.options e.token).bind fun _ h => ⟨rfl, h⟩
  spares {e} h := by
    obtain ⟨own, options, token, calls, attempts⟩ := e
    cases h
    rfl
  repeats {e e'} _ hoptions htoken := by
    show (release c.name e'.options e'.token).bind _ = _
    rw [hoptions, htoken]
    rfl

end Mongo

/-- **The life of a token.** An adapter makes one complete call after another, whatever is replied.
Its token is the one created by the latest attempt that was granted, from that attempt until a
release that went well, or, with sessions and leases, until a refresh that told of the loss; no
other answer changes it. A release that failed is repeated with the same token and in the same
words, and after one that went well a release has nothing to send and goes well. -/
theorem token_life (ks : Consul.Keyspace) (ks' : Etcd.Keyspace) (c : Mongo.Collection) :
    TokenLife ks.adapter true Consul.opened? ∧ TokenLife ks'.adapter true Etcd.granted? ∧
      TokenLife c.adapter false Mongo.minted? :=
  ⟨(Consul.custodian ks).tokenLife, (Etcd.custodian ks').tokenLife, (Mongo.custodian c).tokenLife⟩

/-- A server that grants a lease and a key, does not confirm the first release, and confirms the
second. -/
def hesitant : Remote (Prompter Etcd.Request Etcd.Reply) Etcd.Request Etcd.Reply Int where
  server := {
    answers := [fun _ => some (.lease 7 10), fun _ => some (.outcome true []),
      fun _ => some .closed]
    final := .revoked }
  adapter := Etcd.Keyspace.adapter {}

/-- Where the calls to it come from. -/
def hesitantSite : Site := ⟨0, .direct 0, { owner := "a" }⟩

/-- The service after the lock was granted. -/
def hesitantHeld : Remote (Prompter Etcd.Request Etcd.Reply) Etcd.Request Etcd.Reply Int :=
  (hesitant.call hesitantSite hesitantSite.own .acquire).1

/-- The service after a release that was not confirmed. -/
def hesitantLeft : Remote (Prompter Etcd.Request Etcd.Reply) Etcd.Request Etcd.Reply Int :=
  (hesitantHeld.call hesitantSite hesitantSite.own .release).1

/-- The release is repeated with the token that the attempt has created. -/
theorem token_life_hesitant : ∃ v₁ v₂ v₃ : Posting Etcd.Request Etcd.Reply Int,
    Ledger (Etcd.Keyspace.adapter {}) [v₂, v₁] (some 7) ∧
      v₂.answer = .release (.error Etcd.unexpected) ∧
      stored true Etcd.granted? [v₂, v₁] = some 7 ∧ v₃.errand.token = some 7 ∧
      Etcd.Keyspace.adapter {} v₃.errand .release = Etcd.Keyspace.adapter {} v₂.errand .release ∧
      Ledger (Etcd.Keyspace.adapter {}) [v₃, v₂, v₁] none ∧ v₃.answer = .release (.ok ()) ∧
      ∀ e : Errand Int, e.token = none →
        Etcd.Keyspace.adapter {} e .release = .done (none, .release (.ok ())) := by
  obtain ⟨s₁, granted⟩ := hesitant.ledger_of_call hesitantSite hesitantSite.own .acquire .opened rfl
  obtain ⟨s₂, refused⟩ :=
    hesitantHeld.ledger_of_call hesitantSite hesitantSite.own .release granted rfl
  obtain ⟨s₃, released⟩ :=
    hesitantLeft.ledger_of_call hesitantSite hesitantSite.own .release refused rfl
  have held : Ledger (Etcd.Keyspace.adapter {}) [_, _] (some 7) := refused
  have left : Ledger (Etcd.Keyspace.adapter {}) [_, _, _] none := released
  obtain ⟨-, life, -⟩ := token_life (Consul.Keyspace.mk ⟨"", none⟩ "") {} { mint := fun _ => "" }
  obtain ⟨-, -, hrepeat⟩ := life.repeated _ _ _ held rfl nofun
  refine ⟨_, _, _, held, rfl, (life.stored _ _ held).symm, ?_, ?_, left, rfl, ?_⟩
  · rfl
  · exact hrepeat _ rfl rfl rfl
  · exact life.spared [] _ _ _ left rfl (List.forall_mem_nil _)

end LeaseLock
