import LeaseLock.Etcd.Adapter
import LeaseLock.Proofs.Remote.Register
import Mathlib.Tactic.Common

/-!
# What the operations on leases ask and come to

**The rule** (`rule`). A key is made with a lease that the operation was granted itself, and only
such a lease is given back; a release revokes the lease of the acquisition (`May`). An attempt is
granted only if its own lease made the key (`Ends`).

Main result: `rule_binds`.
-/

namespace LeaseLock.Etcd

open Network

variable {ks : Keyspace} {c : Commission Int} {past newer : List (Request × Reply)} {lease : Int}

/-- The lease that was granted. -/
def granted? : Request → Reply → Option Int
  | .grant _, .lease id _ => some id
  | _, _ => none

theorem granted?_eq_some {q : Request} {reply : Reply} :
    granted? q reply = some lease ↔ ∃ secs ttl, q = .grant secs ∧ reply = .lease lease ttl := by
  unfold granted?
  constructor
  · intro h
    split at h
    · cases h
      exact ⟨_, _, rfl, rfl⟩
    · cases h
  · rintro ⟨secs, ttl, rfl, rfl⟩
    rfl

/-- The operation was granted the lease. -/
abbrev Opened : List (Request × Reply) → Int → Prop := Heard granted?

/-- What an operation may ask. -/
inductive May (ks : Keyspace) (c : Commission Int) (past : List (Request × Reply)) :
    Request → Prop
  | grant : May ks c past (.grant c.errand.options.wholeSecs)
  | create {lease : Int} : Opened past lease →
      May ks c past (.create (ks.key c.errand.own.name) c.errand.options.owner lease)
  /-- A lease that is of no use is given back. -/
  | giveBack {lease : Int} : Opened past lease → May ks c past (.revoke lease)
  | keepAlive {lease : Int} : May ks c past (.keepAlive lease)
  | revoke {lease : Int} : c.op = .release → c.errand.token = some lease →
      May ks c past (.revoke lease)

/-- What an operation may come to: the token to keep, and the answer. -/
inductive Ends (ks : Keyspace) (c : Commission Int) (past : List (Request × Reply)) :
    Option Int × Answer → Prop
  | granted {lease : Int} {effects : List Effect} : Opened past lease →
      (.create (ks.key c.errand.own.name) c.errand.options.owner lease, .outcome true effects) ∈
        past → Ends ks c past (some lease, .acquire (.ok .granted))
  | refused {result : Except LockError Attempt} : result ≠ .ok .granted →
      Ends ks c past (c.errand.token, .acquire result)
  | refreshed {token : Option Int} {result : Except LockError Unit} :
      token = none ∨ token = c.errand.token → Ends ks c past (token, .refresh result)
  | left {token : Option Int} {result : Except LockError Unit} :
      token = none ∨ token = c.errand.token → Ends ks c past (token, .release result)

/-- What clients of a keyspace say and come to. -/
def rule (ks : Keyspace) : Rule Request Reply Int where
  may := May ks
  ends := Ends ks

theorem Ends.granted_of_new {x : Option Int × Answer} (h : Ends ks c past x)
    (hx : x.1 = some lease) (hne : c.errand.token ≠ some lease) :
    x.2 = .acquire (.ok .granted) := by
  cases h with
  | granted => rfl
  | refused => exact absurd hx hne
  | refreshed h | left h =>
    rcases h with rfl | rfl
    · cases hx
    · exact absurd hx hne

/-- **An attempt that is granted** has made the key with its own lease. -/
theorem Ends.of_granted {x : Option Int × Answer} (h : Ends ks c past x)
    (hx : x.2 = .acquire (.ok .granted)) :
    ∃ lease effects, x.1 = some lease ∧ Opened past lease ∧
      (.create (ks.key c.errand.own.name) c.errand.options.owner lease, .outcome true effects) ∈
        past := by
  cases h with
  | granted ho hc => exact ⟨_, _, rfl, ho, hc⟩
  | refused hne =>
    cases hx
    exact absurd rfl hne
  | refreshed | left => cases hx

theorem keeps_grant : (grant c.errand.options).Keeps (May ks c)
    (fun past r => ∀ lease, r = .ok lease → Opened past lease) past := by
  refine ⟨.grant, List.forall_mem_nil _, fun reply => ?_⟩
  cases reply with
  | lease id ttl =>
    rintro _ ⟨⟩
    exact ⟨_, _, List.mem_cons_self, rfl⟩
  | failure | revoked | outcome | closed => exact nofun

theorem keeps_create (h : Opened past lease) :
    (create (ks.key c.errand.own.name) c.errand.options lease).Keeps (May ks c)
      (fun past r => Opened past lease ∧ (r = .ok .granted → ∃ effects,
        (.create (ks.key c.errand.own.name) c.errand.options.owner lease, .outcome true effects) ∈
          past)) past := by
  refine ⟨.create h, List.forall_mem_nil _, fun reply => ?_⟩
  cases reply with
  | outcome created effects =>
    cases created with
    | true => exact ⟨h.append [_], fun _ => ⟨effects, List.mem_cons_self⟩⟩
    | false => exact ⟨h.append [_], nofun⟩
  | lease | failure | revoked | closed => exact ⟨h.append [_], nofun⟩

theorem keeps_revoke (h : ∀ newer, May ks c (newer ++ past) (.revoke lease)) :
    (revoke lease).Keeps (May ks c) (fun past _ => May ks c past (.revoke lease)) past := by
  refine ⟨h [], List.forall_mem_nil _, fun reply => ?_⟩
  cases reply <;> exact h [_]

theorem keeps_acquire :
    (acquire (ks.key c.errand.own.name) c.errand.options c.errand.token).Keeps (May ks c)
      (fun past x => Ends ks c past (x.1, .acquire x.2)) [] := by
  refine keeps_grant.bind fun past r h => ?_
  rcases r with e | lease
  · exact .refused (by simp)
  have ho := h lease rfl
  refine Talk.Keeps.owing ((keeps_create ho).bind fun past r ⟨ho, hc⟩ => ?_)
    fun newer => List.forall_mem_singleton.2 (.giveBack (ho.append newer))
  have revoked := @keeps_revoke ks c past lease fun newer => .giveBack (ho.append newer)
  rcases r with e | (_ | owner)
  · exact revoked.discard.bind fun _ _ _ => .refused (by simp)
  · obtain ⟨effects, hc⟩ := hc rfl
    exact .granted ho hc
  · refine revoked.bind fun past r h => ?_
    rcases r with e | _
    · exact ⟨h, .refused (by simp)⟩
    · exact .refused (by simp)

theorem keeps_openKeepAlive :
    (openKeepAlive lease).Keeps (May ks c) (fun _ _ => True) past := by
  refine ⟨.keepAlive, List.forall_mem_nil _, fun reply => ?_⟩
  cases reply <;> trivial

theorem keeps_refresh :
    (refresh c.errand.options c.errand.token).Keeps (May ks c)
      (fun past x => Ends ks c past (x.1, .refresh x.2)) past := by
  cases ht : c.errand.token with
  | none => exact .refreshed (.inl rfl)
  | some lease =>
    refine keeps_openKeepAlive.bind fun past r _ => ?_
    cases r with
    | error e => exact .refreshed (.inr ht.symm)
    | ok id =>
      refine ⟨.keepAlive, List.forall_mem_nil _, fun reply => ?_⟩
      cases reply with
      | lease _ ttl =>
        by_cases h : ttl ≤ 0
        · simp only [Talk.pure_eq, Talk.done_bind, if_pos h]
          exact .refreshed (.inl rfl)
        · simp only [Talk.pure_eq, Talk.done_bind, if_neg h]
          exact .refreshed (.inr ht.symm)
      | closed | failure | revoked | outcome => exact .refreshed (.inr ht.symm)

theorem keeps_release (ho : c.op = .release) :
    (release c.errand.token).Keeps (May ks c)
      (fun past x => Ends ks c past (x.1, .release x.2)) past := by
  cases ht : c.errand.token with
  | none => exact .left (.inl rfl)
  | some lease =>
    refine (keeps_revoke fun _ => .revoke ho ht).bind fun past r _ => ?_
    cases r with
    | error e => exact .left (.inr ht.symm)
    | ok u => exact .left (.inl rfl)

/-- **The operations keep the rule**, whatever the server replies. -/
theorem rule_binds (ks : Keyspace) (own : Nat → Options) :
    (rule ks).Binds fun i => ⟨own i, ks.adapter⟩ := by
  intro c
  show (ks.adapter c.errand c.op).Keeps _ _ _
  unfold Keyspace.adapter
  cases ho : c.op with
  | acquire => exact keeps_acquire.bind fun _ _ h => h
  | refresh => exact keeps_refresh.bind fun _ _ h => h
  | release => exact (keeps_release ho).bind fun _ _ h => h

end LeaseLock.Etcd
