import LeaseLock.Consul.Adapter
import LeaseLock.Etcd.Adapter
import LeaseLock.Proofs.Remote.Talks
import Mathlib.Tactic.Common

/-!
# Tokens of sessions and leases

**Keeping a token** (`Tokened`). What the operations of an adapter do with the token of the
current acquisition: a grant brings one, a refresh that is told of a loss removes it, and a
refresh without a token says that nothing is held. All other answers leave it as it was, but for a
release.

Main results: `Consul.tokened` and `Etcd.tokened`.
-/

namespace LeaseLock

variable {Q A τ : Type}

/-- The error tells neither of a loss nor of a lock that is not held. -/
def LockError.IsOrdinary (e : LockError) : Prop := e ≠ .notHeld ∧ ∀ loss, e ≠ .lost loss

theorem LockError.isOrdinary_unavailable (cause : String) :
    (LockError.unavailable cause).IsOrdinary := ⟨by simp, by simp⟩

theorem LockError.isOrdinary_garbled (report : String) : (LockError.garbled report).IsOrdinary :=
  ⟨by simp, by simp⟩

/-- If it is an error, it is an ordinary one. -/
def Ordinary {α : Type} (r : Except LockError α) : Prop := ∀ e, r = .error e → e.IsOrdinary

theorem ordinary_ok {α : Type} (a : α) : Ordinary (.ok a) := by
  intro e he
  cases he

theorem ordinary_error {α : Type} {e : LockError} (h : e.IsOrdinary) :
    Ordinary (.error e : Except LockError α) := by
  intro e' he
  cases he
  exact h

/-- What an operation may come to: the token to keep, and the answer. -/
inductive Comes (token : Option τ) : Op → Option τ × Answer → Prop
  | granted {t : τ} : Comes token .acquire (some t, .acquire (.ok .granted))
  | refused {r : Except LockError Attempt} : r ≠ .ok .granted →
      Comes token .acquire (token, .acquire r)
  | tokenless : token = none → Comes token .refresh (none, .refresh (.error .notHeld))
  | lost {loss : Loss} : token ≠ none → Comes token .refresh (none, .refresh (.error (.lost loss)))
  | kept {r : Except LockError Unit} : token ≠ none → Ordinary r →
      Comes token .refresh (token, .refresh r)
  | released {token' : Option τ} {r : Except LockError Unit} :
      Comes token .release (token', .release r)

/-- The token that the adapter keeps follows its answers. -/
def Tokened (ad : Adapter Q A τ) : Prop := ∀ e op, (ad e op).Ends (Comes e.token op)

theorem Comes.op {token : Option τ} {op : Op} {x : Option τ × Answer} (h : Comes token op x) :
    x.2.op = op := by
  cases h <;> rfl

/-! ## Sessions -/

namespace Consul

open Talk

theorem ordinary_content (reply : Http.Reply) : Ordinary reply.content := by
  unfold Http.Reply.content
  split
  · split
    · exact ordinary_error (LockError.isOrdinary_unavailable _)
    · exact ordinary_ok _
  · exact ordinary_error (LockError.isOrdinary_unavailable _)

theorem ends_keepSession (id : String) : (keepSession id).Ends Ordinary := by
  refine (ends_question _).bind fun reply _ => ?_
  show Ordinary (if reply.isNotFound then .ok false else reply.content.map fun _ => true)
  split
  · exact ordinary_ok _
  · cases hc : reply.content with
    | error e => exact ordinary_error (ordinary_content reply e hc)
    | ok body => exact ordinary_ok _

theorem ends_refresh (o : Options) (token : Option String) :
    (refresh o token).Ends fun x => Comes token .refresh (x.1, .refresh x.2) := by
  cases token with
  | none => exact .tokenless rfl
  | some session =>
    refine (ends_keepSession session).bind fun r hr => ?_
    rcases r with e | (_ | _)
    · exact .kept (by simp) (ordinary_error (hr e rfl))
    · exact .lost (by simp)
    · exact .kept (by simp) (ordinary_ok _)

theorem ends_acquire (key : String) (o : Options) (token : Option String) :
    (acquire key o token).Ends fun x => Comes token .acquire (x.1, .acquire x.2) := by
  refine (ends_true _).bind fun r _ => ?_
  rcases r with e | session
  · exact .refused (by simp)
  · refine Ends.owing ((ends_true (acquireKey key session o.owner)).bind fun r _ => ?_) _
    rcases r with e | (_ | _)
    · exact (ends_true _).bind fun _ _ => .refused (by simp)
    · exact (ends_true (ownerOf key)).bind fun owner _ =>
        (ends_true _).bind fun _ _ => .refused (by simp)
    · exact .granted

/-- **Consul's token is the session** of the current acquisition. -/
theorem tokened (ks : Keyspace) : Tokened ks.adapter := by
  intro e op
  cases op with
  | acquire => exact (ends_acquire _ e.options e.token).bind fun _ h => h
  | refresh => exact (ends_refresh e.options e.token).bind fun _ h => h
  | release => exact (ends_true (release _ e.token)).bind fun _ _ => .released

end Consul

/-! ## Leases -/

namespace Etcd

open Talk

theorem ends_openKeepAlive (lease : Int) : (openKeepAlive lease).Ends Ordinary := by
  refine (ends_question _).bind fun reply _ => ?_
  cases reply with
  | lease id ttl =>
    show Ordinary (if ttl ≤ 0 then .error (.unavailable "lease not alive") else .ok id)
    split
    · exact ordinary_error (LockError.isOrdinary_unavailable _)
    · exact ordinary_ok _
  | failure report | revoked | outcome | closed =>
    exact ordinary_error (LockError.isOrdinary_unavailable _)

theorem ends_refresh (o : Options) (token : Option Int) :
    (refresh o token).Ends fun x => Comes token .refresh (x.1, .refresh x.2) := by
  cases token with
  | none => exact .tokenless rfl
  | some lease =>
    refine (ends_openKeepAlive lease).bind fun r hr => ?_
    cases r with
    | error e => exact .kept (by simp) (ordinary_error (hr e rfl))
    | ok id =>
      refine (ends_question _).bind fun reply _ => ?_
      cases reply with
      | lease _ ttl =>
        by_cases h : ttl ≤ 0
        · simp only [if_pos h]
          exact .lost (by simp)
        · simp only [if_neg h]
          exact .kept (by simp) (ordinary_ok _)
      | closed => exact .kept (by simp) (ordinary_error (LockError.isOrdinary_garbled _))
      | failure report | revoked | outcome =>
        exact .kept (by simp) (ordinary_error (LockError.isOrdinary_unavailable _))

theorem ends_acquire (key : String) (o : Options) (token : Option Int) :
    (acquire key o token).Ends fun x => Comes token .acquire (x.1, .acquire x.2) := by
  refine (ends_true _).bind fun r _ => ?_
  rcases r with e | lease
  · exact .refused (by simp)
  · refine Ends.owing ((ends_true (create key o lease)).bind fun r _ => ?_) _
    rcases r with e | (_ | owner)
    · exact (ends_true _).bind fun _ _ => .refused (by simp)
    · exact .granted
    · refine (ends_true (revoke lease)).bind fun r _ => ?_
      cases r with
      | error e => exact (ends_true _).bind fun _ _ => .refused (by simp)
      | ok u => exact .refused (by simp)

/-- **Etcd's token is the lease** of the current acquisition. -/
theorem tokened (ks : Keyspace) : Tokened ks.adapter := by
  intro e op
  cases op with
  | acquire => exact (ends_acquire _ e.options e.token).bind fun _ h => h
  | refresh => exact (ends_refresh e.options e.token).bind fun _ h => h
  | release => exact (ends_true (release e.token)).bind fun _ _ => .released

end Etcd

end LeaseLock
