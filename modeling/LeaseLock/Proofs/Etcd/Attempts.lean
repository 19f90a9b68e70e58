import LeaseLock.Proofs.Etcd.Dialogues
import LeaseLock.Proofs.Remote.Courses

/-!
# No lease is left behind

**Readings** (`Reply.leased`, `Reply.taken`, `Reply.freed`). Each question of an attempt is asked
and its reply is read; what the attempt does next hangs on the reading alone.

**Attempts** (`Attempted`, `Tried`). Every course that an attempt to make a key can go, with all
that is sent and heard on it. Without a lease an attempt is over. With one it tries to make the key;
if it fails to, it revokes the lease. A revocation that is not confirmed is told once more, and so
it is if the attempt is cut off.

**What becomes of the lease** (`Tidy`). It is kept and not revoked, or it is revoked and the token
stays as it was. Once is enough if the server says that the lease is gone (`Gone`). No other lease
is revoked.

Main result: `no_lease_left`.
-/

namespace LeaseLock.Etcd

open Talk (Course)

/-! ## Readings -/

/-- The lease that was granted. -/
def Reply.leased : Reply → Except LockError Int
  | .lease id _ => .ok id
  | .failure report => .error (.unavailable report)
  | _ => .error unexpected

/-- Whether the key was made, and who has it if not. -/
def Reply.taken : Reply → Except LockError Attempt
  | .outcome true _ => .ok .granted
  | .outcome false effects => .ok (.occupied (ownerAmong effects))
  | .failure report => .error (.unavailable report)
  | _ => .error unexpected

/-- Whether the lease is gone. -/
def Reply.freed : Reply → Except LockError Unit
  | .revoked => .ok ()
  | .failure report => if saysLeaseGone report then .ok () else .error (.unavailable report)
  | _ => .error unexpected

theorem grant_eq (o : Options) :
    grant o = (Talk.question (.grant o.wholeSecs)).bind fun reply => .done reply.leased := by
  unfold grant
  congr 1
  funext reply
  cases reply <;> rfl

theorem create_eq (key : String) (o : Options) (lease : Int) :
    create key o lease =
      (Talk.question (.create key o.owner lease)).bind fun reply => .done reply.taken := by
  unfold create
  congr 1
  funext reply
  cases reply with
  | outcome created effects => cases created <;> rfl
  | lease | revoked | failure | closed => rfl

theorem revoke_eq (lease : Int) :
    revoke lease = (Talk.question (.revoke lease)).bind fun reply => .done reply.freed := by
  unfold revoke
  congr 1
  funext reply
  cases reply <;> rfl

theorem granted?_eq_leased (secs : Nat) (reply : Reply) :
    granted? (.grant secs) reply = reply.leased.toOption := by
  cases reply <;> rfl

/-! ## The courses of an attempt -/

variable {ks : Keyspace} {e : Errand Int} {lease : Int} {key : String} {o : Options}
  {token : Option Int} {sent : List (Request × Option Reply)}

/-- The token to keep, and how the attempt came out. -/
abbrev Outcome := Option Int × Except LockError Attempt

variable {r : Option Outcome}

/-- What an attempt does once it has a lease. -/
def tryFor (key : String) (o : Options) (token : Option Int) (lease : Int) : Dialogue Outcome := do
  match ← create key o lease with
  | .ok .granted => return (some lease, .ok .granted)
  | .ok (.occupied owner) =>
    match ← revoke lease with
    | .ok () => return (token, .ok (.occupied owner))
    | .error error =>
      Talk.notice (.revoke lease)
      return (token, .error error)
  | .error error =>
    discard (revoke lease)
    return (token, .error error)

theorem acquire_eq (key : String) (o : Options) (token : Option Int) :
    acquire key o token = (grant o).bind fun
      | .error error => .done (token, .error error)
      | .ok lease => (tryFor key o token lease).owing [.revoke lease] := rfl

/-- What an attempt can come to once it has a lease. -/
inductive Tried (key : String) (o : Options) (token : Option Int) (lease : Int) :
    List (Request × Option Reply) → Option Outcome → Prop
  | granted {reply : Reply} : reply.taken = .ok .granted → Tried key o token lease
      [(.create key o.owner lease, some reply)] (some (some lease, .ok .granted))
  /-- The key is there already. -/
  | refused {reply reply' : Reply} {owner : Option String} :
      reply.taken = .ok (.occupied owner) → reply'.freed = .ok () → Tried key o token lease
        [(.create key o.owner lease, some reply), (.revoke lease, some reply')]
        (some (token, .ok (.occupied owner)))
  /-- The key is there already, and it is not known whether the lease is gone. -/
  | unconfirmed {reply reply' : Reply} {owner : Option String} {error : LockError} :
      reply.taken = .ok (.occupied owner) → reply'.freed = .error error → Tried key o token lease
        [(.create key o.owner lease, some reply), (.revoke lease, some reply'),
          (.revoke lease, none)] (some (token, .error error))
  | failed {reply reply' : Reply} {error : LockError} : reply.taken = .error error →
      Tried key o token lease
        [(.create key o.owner lease, some reply), (.revoke lease, some reply')]
        (some (token, .error error))
  | cutTaking : Tried key o token lease [(.create key o.owner lease, none)] none
  | cutRevoking {reply : Reply} : reply.taken ≠ .ok .granted →
      Tried key o token lease [(.create key o.owner lease, some reply), (.revoke lease, none)] none

/-- What an attempt can come to. -/
inductive Attempted (ks : Keyspace) (e : Errand Int) :
    List (Request × Option Reply) → Option Outcome → Prop
  /-- Whether there is a lease will never be known. -/
  | cut : Attempted ks e [(.grant e.options.wholeSecs, none)] none
  | ungranted {reply : Reply} {error : LockError} : reply.leased = .error error →
      Attempted ks e [(.grant e.options.wholeSecs, some reply)] (some (e.token, .error error))
  | tried {reply : Reply} {lease : Int} {sent : List (Request × Option Reply)} {x : Outcome} :
      reply.leased = .ok lease →
      Tried (ks.key e.own.name) e.options e.token lease sent (some x) →
      Attempted ks e ((.grant e.options.wholeSecs, some reply) :: sent) (some x)
  /-- The attempt is cut off, and owes the lease its revocation. -/
  | abandoned {reply : Reply} {lease : Int} {sent : List (Request × Option Reply)} :
      reply.leased = .ok lease → Tried (ks.key e.own.name) e.options e.token lease sent none →
      Attempted ks e ((.grant e.options.wholeSecs, some reply) ::
        (sent ++ [(.revoke lease, none)])) none

/-- **Every course of an attempt that has a lease** is one of these. -/
theorem tried_of_course (h : Course (tryFor key o token lease) sent r) :
    Tried key o token lease sent r := by
  unfold tryFor at h
  rw [create_eq, revoke_eq] at h
  rcases Course.of_read h with ⟨reply, s, rfl, hrest⟩ | ⟨rfl, rfl⟩
  · cases htaken : reply.taken with
    | error error =>
      rw [htaken] at hrest
      obtain ⟨u, rfl, hrevoke⟩ := Course.of_map hrest
      obtain ⟨v, rfl, hreading⟩ := Course.of_discard hrevoke
      rcases Course.of_reading hreading with ⟨reply', rfl, rfl⟩ | ⟨rfl, rfl⟩
      · exact .failed htaken
      · exact .cutRevoking (by simp [htaken])
    | ok attempt =>
      rw [htaken] at hrest
      cases attempt with
      | granted =>
        obtain ⟨rfl, rfl⟩ := Course.of_done hrest
        exact .granted htaken
      | occupied owner =>
        rcases Course.of_read hrest with ⟨reply', s, rfl, hend⟩ | ⟨rfl, rfl⟩
        · cases hfreed : reply'.freed with
          | ok u =>
            rw [hfreed] at hend
            obtain ⟨rfl, rfl⟩ := Course.of_done hend
            exact .refused htaken hfreed
          | error error =>
            rw [hfreed] at hend
            cases hend with
            | told hdone =>
              obtain ⟨rfl, rfl⟩ := Course.of_done hdone
              exact .unconfirmed htaken hfreed
        · exact .cutRevoking (by simp [htaken])
  · exact .cutTaking

/-- **Every course of an attempt** is one of these. -/
theorem attempted_of_course {result : Option (Option Int × Answer)}
    (h : Course (ks.adapter e .acquire) sent result) :
    ∃ r, result = r.map (fun x => (x.1, .acquire x.2)) ∧ Attempted ks e sent r := by
  obtain ⟨r, rfl, hacq⟩ := Course.of_map h
  refine ⟨r, rfl, ?_⟩
  rw [acquire_eq, grant_eq] at hacq
  rcases Course.of_read hacq with ⟨reply, s, rfl, hrest⟩ | ⟨rfl, rfl⟩
  · cases hleased : reply.leased with
    | error error =>
      rw [hleased] at hrest
      obtain ⟨rfl, rfl⟩ := Course.of_done hrest
      exact .ungranted hleased
    | ok lease =>
      rw [hleased] at hrest
      rcases Course.of_owing hrest with ⟨x, rfl, hdone⟩ | ⟨rfl, s, rfl, hcut⟩
      · exact .tried hleased (tried_of_course hdone)
      · exact .abandoned hleased (tried_of_course hcut)
  · exact .cut

theorem given_of_leased {reply : Reply} {secs : Nat} (h : reply.leased = .ok lease) :
    Talk.given granted? ((.grant secs, some reply) :: sent) = some lease := by
  have hgranted : granted? (.grant secs) reply = some lease := by
    rw [granted?_eq_leased, h]
    rfl
  simp [Talk.given, hgranted]

theorem Tried.token_of_done {x : Outcome} (h : Tried key o token lease sent (some x)) :
    x = (some lease, .ok .granted) ∨ x.1 = token ∧ x.2 ≠ .ok .granted := by
  cases h with
  | granted => exact .inl rfl
  | refused | unconfirmed | failed => exact .inr ⟨rfl, nofun⟩

/-! ## What becomes of the lease -/

/-- The reply says that the lease is gone: revoked now, or not found. -/
inductive Gone : Reply → Prop
  | revoked : Gone .revoked
  | missing {report : String} : saysLeaseGone report = true → Gone (.failure report)

theorem freed_eq_ok_iff {reply : Reply} : reply.freed = .ok () ↔ Gone reply := by
  constructor
  · intro h
    cases reply with
    | revoked => exact .revoked
    | failure report =>
      by_cases hg : saysLeaseGone report = true
      · exact .missing hg
      · simp [Reply.freed, hg] at h
    | lease | outcome | closed => cases h
  · rintro (_ | hg)
    · rfl
    · exact if_pos hg

/-- The lease that a request asks to revoke. -/
def Request.revokes? : Request → Option Int
  | .revoke lease => some lease
  | _ => none

/-- The leases that the attempt has asked to revoke, in order. -/
def revocations (sent : List (Request × Option Reply)) : List Int :=
  sent.filterMap (·.1.revokes?)

/-- The attempt has heard that the lease is gone. -/
def HearsGone (sent : List (Request × Option Reply)) (lease : Int) : Prop :=
  ∃ reply, (.revoke lease, some reply) ∈ sent ∧ Gone reply

/-- The lease is revoked, and no other is: once or twice. -/
def Revokes (sent : List (Request × Option Reply)) (lease : Int) : Prop :=
  revocations sent = [lease] ∨ revocations sent = [lease, lease]

/-- The lease of an attempt is either kept, or revoked and forgotten. -/
inductive Tidy (token : Option Int) (sent : List (Request × Option Reply)) :
    Option (Option Int × Answer) → Prop
  /-- No lease was granted that is known of, and nothing more was sent. -/
  | ungranted {secs : Nat} {a : Option Reply} {result : Option (Option Int × Answer)} :
      Talk.given granted? sent = none → sent = [(.grant secs, a)] → kept token result = token →
      (∀ t, result ≠ some (t, .acquire (.ok .granted))) → Tidy token sent result
  | kept {lease : Int} : Talk.given granted? sent = some lease → revocations sent = [] →
      Tidy token sent (some (some lease, .acquire (.ok .granted)))
  /-- A revocation is repeated only if it was not heard that the lease is gone. -/
  | revoked {lease : Int} {answer : Except LockError Attempt} :
      Talk.given granted? sent = some lease → Revokes sent lease →
      (HearsGone sent lease → revocations sent = [lease]) → answer ≠ .ok .granted →
      Tidy token sent (some (token, .acquire answer))
  /-- The attempt is cut off; if it was revoking the lease, the lease is revoked once more. -/
  | abandoned {lease : Int} : Talk.given granted? sent = some lease → Revokes sent lease →
      Tidy token sent none

/-- An attempt that comes to its end has revoked its lease, unless the key is its own. -/
theorem Tried.revoked_of_done {x : Outcome} (h : Tried key o token lease sent (some x)) :
    x = (some lease, .ok .granted) ∧ revocations sent = [] ∨
      x.1 = token ∧ x.2 ≠ .ok .granted ∧ Revokes sent lease ∧
        (HearsGone sent lease → revocations sent = [lease]) := by
  cases h with
  | granted => exact .inl ⟨rfl, rfl⟩
  | refused | failed => exact .inr ⟨rfl, nofun, .inl rfl, fun _ => rfl⟩
  | @unconfirmed _ reply _ _ _ hfreed =>
    refine .inr ⟨rfl, nofun, .inr rfl, ?_⟩
    -- the only revocation that was answered was not confirmed
    rintro ⟨reply', hmem, hgone⟩
    obtain rfl : reply' = reply := by simpa using hmem
    rw [freed_eq_ok_iff.2 hgone] at hfreed
    cases hfreed

/-- An attempt that is cut off has revoked its lease at most once by itself. -/
theorem Tried.revoked_of_cut (h : Tried key o token lease sent none) :
    revocations sent = [] ∨ revocations sent = [lease] := by
  cases h with
  | cutTaking => exact .inl rfl
  | cutRevoking => exact .inr rfl

theorem hearsGone_cons_grant {secs : Nat} {a : Option Reply} :
    HearsGone ((.grant secs, a) :: sent) lease ↔ HearsGone sent lease := by
  simp [HearsGone]

theorem Attempted.tidy (h : Attempted ks e sent r) :
    Tidy e.token sent (r.map fun x => (x.1, .acquire x.2)) := by
  cases h with
  | cut => exact .ungranted rfl rfl rfl (by simp)
  | @ungranted reply _ hn =>
    have hgiven : granted? (.grant e.options.wholeSecs) reply = none := by
      rw [granted?_eq_leased, hn]
      rfl
    exact .ungranted (by simp [Talk.given, hgiven]) rfl rfl (by simp)
  | @tried _ _ _ x hl ht =>
    rcases ht.revoked_of_done with ⟨rfl, hr⟩ | ⟨hx, hne, hr, honce⟩
    · exact .kept (given_of_leased hl) hr
    · obtain ⟨token, answer⟩ := x
      cases hx
      exact .revoked (given_of_leased hl) hr (fun hg => honce (hearsGone_cons_grant.1 hg)) hne
  | @abandoned reply lease sent hl ht =>
    have hrevoked : revocations ((.grant e.options.wholeSecs, some reply) ::
        (sent ++ [(.revoke lease, none)])) = revocations sent ++ [lease] := List.filterMap_append
    refine .abandoned (given_of_leased hl) ?_
    unfold Revokes
    rw [hrevoked]
    rcases ht.revoked_of_cut with hr | hr
    · rw [hr]
      exact .inl rfl
    · rw [hr]
      exact .inr rfl

/-- **No attempt leaves a lease behind.** Whatever is replied, and wherever the attempt is cut off:
once a lease was granted to it, either the attempt is granted, keeps the lease and does not ask to
revoke it, or the token stays as it was and the lease is revoked: at least once, and exactly once if
the attempt comes to its end and hears that the lease is gone. It revokes no other lease, and if
none was granted to it, it sends nothing after the request for one. So it is with every server. -/
theorem no_lease_left (ks : Keyspace) :
    (∀ e sent result, Course (ks.adapter e .acquire) sent result → Tidy e.token sent result) ∧
      ∀ (S : Type) [Server S Request Reply] (r : Remote S Request Reply Int) (site : Site)
        (o : Options), r.adapter = ks.adapter →
        ∃ sent result, Tidy (r.token? site.home) sent result ∧
          (r.settled site o .acquire).server = Talk.tellAll r.server (sent.map Prod.fst) ∧
          (r.settled site o .acquire).token? site.home = kept (r.token? site.home) result ∧
          ∀ a, (r.call site o .acquire).2 = .answered a ↔ ∃ token, result = some (token, a) := by
  have tidy : ∀ e sent result, Course (ks.adapter e .acquire) sent result →
      Tidy e.token sent result := by
    intro e sent result h
    obtain ⟨r, rfl, ha⟩ := attempted_of_course h
    exact ha.tidy
  refine ⟨tidy, ?_⟩
  intro S _ r site o hr
  obtain ⟨sent, result, hcourse, hserver, htoken, hanswer⟩ := r.call_follows site o .acquire
  rw [hr] at hcourse
  exact ⟨sent, result, tidy _ _ _ hcourse, hserver, htoken, hanswer⟩

/-- A server that grants a lease, has given the key to another, and is down when the lease is to be
revoked. -/
def failing : Remote (Prompter Request Reply) Request Reply Int where
  server := {
    answers := [fun _ => some (.lease 7 10), fun _ => some (.outcome false [])]
    final := .failure "down" }
  adapter := Keyspace.adapter {}

/-- An attempt to take the key of a lock. -/
def taking : Site := ⟨0, .direct 0, { owner := "a", name := "job" }⟩

/-- A revocation that is not confirmed is told once more. -/
theorem no_lease_left_unconfirmed : ∃ sent token,
    Tidy none sent (some (token, .acquire (.error (.unavailable "down")))) ∧
    (failing.settled taking taking.own .acquire).token? 0 = none ∧
    (failing.settled taking taking.own .acquire).server =
      Talk.tellAll failing.server (sent.map Prod.fst) ∧
    (failing.settled taking taking.own .acquire).server.asked =
      [.grant 10, .create "job" "a" 7, .revoke 7, .revoke 7] := by
  obtain ⟨sent, result, htidy, hserver, -, hanswer⟩ :=
    (no_lease_left {}).2 _ failing taking taking.own rfl
  obtain ⟨token, rfl⟩ := (hanswer (.acquire (.error (.unavailable "down")))).1 (by rfl)
  exact ⟨sent, token, htidy, by decide +kernel, hserver, by decide +kernel⟩

end LeaseLock.Etcd
