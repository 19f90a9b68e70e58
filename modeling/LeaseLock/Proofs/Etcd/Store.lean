import LeaseLock.Etcd.Message
import LeaseLock.Proofs.Remote.Register
import Mathlib.Data.List.Nodup
import Mathlib.Logic.Function.Basic

/-!
# A store of keys with leases

**The server** (`Store`). A lease is unborn, alive or dead, in this order. A key is made bound to a
live lease if it does not exist; when a lease ends, by revocation or by itself, exactly the keys
bound to it go.

**A store in order** (`InOrder`). Every key is there once, and its lease is alive.

**One request** (`Change`): everything a request can do. Main results: `change_of_serve`,
`inOrder_of_change` and `mem_of_change`.
-/

namespace LeaseLock.Etcd

/-- A key with its value, bound to a lease. -/
structure Binding where
  key : String
  owner : String
  lease : Int
deriving DecidableEq, Repr

structure Store where
  life : Int → Life := fun _ => .unborn
  bindings : List Binding := []

namespace Store

/-- A lease is granted. -/
def opened (s : Store) (lease : Int) : Store :=
  { s with life := Function.update s.life lease .alive }

@[simp] theorem opened_life (s : Store) (lease : Int) : (s.opened lease).life lease = .alive :=
  Function.update_self _ _ _

/-- A lease ends, and the keys bound to it go. -/
def closed (s : Store) (lease : Int) : Store where
  life := Function.update s.life lease .dead
  bindings := s.bindings.filter (·.lease ≠ lease)

def bound (s : Store) (b : Binding) : Store := { s with bindings := b :: s.bindings }

/-- What the server reports of a lease that is not alive. -/
def leaseNotFound : Reply := .failure "etcdserver: requested lease not found"

/-- Handles a request. The choice is the number of a new lease, or the time to live of one that is
kept. -/
def serve (s : Store) (q : Request) (choice : Int) : Option (Store × Reply) :=
  match q with
  | .grant secs =>
    if choice ≠ 0 ∧ s.life choice = .unborn then some (s.opened choice, .lease choice secs)
    else none
  | .revoke lease =>
    if s.life lease = .alive then some (s.closed lease, .revoked) else some (s, leaseNotFound)
  | .keepAlive lease =>
    if s.life lease = .alive then
      if 0 < choice then some (s, .lease lease choice) else none
    else some (s, .lease lease 0)
  | .create key owner lease =>
    match s.bindings.find? (·.key = key) with
    | some b => some (s, .outcome false [.found [b.owner.toUTF8]])
    | none =>
      if s.life lease = .alive then some (s.bound ⟨key, owner, lease⟩, .outcome true [.written])
      else some (s, leaseNotFound)

/-- A lease runs out. -/
def expire (s : Store) (lease : Int) : Option Store :=
  if s.life lease = .alive then some (s.closed lease) else none

end Store

/-- No reply but a failure, or the end of the replies. -/
def Reply.isFault : Reply → Bool
  | .failure _ | .closed => true
  | .lease .. | .revoked | .outcome .. => false

instance : Host Store Request Reply Int Int where
  serve := Store.serve
  pass := Store.expire
  isFault := Reply.isFault

namespace Store

variable {s s' : Store} {q : Request} {reply : Reply} {choice lease : Int} {b : Binding}

/-- Every key is there once, and is bound to a live lease. -/
structure InOrder (s : Store) : Prop where
  nodup : (s.bindings.map Binding.key).Nodup
  alive : ∀ b ∈ s.bindings, s.life b.lease = .alive

/-- What a request may do. -/
inductive Change (s : Store) : Request → Store → Reply → Prop
  | granted {secs : Nat} {lease ttl : Int} : s.life lease = .unborn →
      Change s (.grant secs) (s.opened lease) (.lease lease ttl)
  | revoked {lease : Int} : s.life lease = .alive →
      Change s (.revoke lease) (s.closed lease) .revoked
  | kept {lease ttl : Int} : Change s (.keepAlive lease) s (.lease lease ttl)
  | created {key owner : String} {lease : Int} {effects : List Effect} :
      (∀ b ∈ s.bindings, b.key ≠ key) → s.life lease = .alive →
      Change s (.create key owner lease) (s.bound ⟨key, owner, lease⟩) (.outcome true effects)
  | occupied {key owner : String} {lease : Int} {effects : List Effect} :
      Change s (.create key owner lease) s (.outcome false effects)
  | failed {q : Request} {report : String} : Change s q s (.failure report)

/-- **What a request can do.** -/
theorem change_of_serve (h : s.serve q choice = some (s', reply)) : Change s q s' reply := by
  cases q with
  | grant secs =>
    simp only [serve] at h
    split at h
    next hc =>
      cases h
      exact .granted hc.2
    · cases h
  | revoke lease =>
    simp only [serve] at h
    split at h
    next hl =>
      cases h
      exact .revoked hl
    · cases h
      exact .failed
  | keepAlive lease =>
    simp only [serve] at h
    split at h
    · split at h
      · cases h
        exact .kept
      · cases h
    · cases h
      exact .kept
  | create key owner lease =>
    simp only [serve] at h
    split at h
    · cases h
      exact .occupied
    next hnone =>
      split at h
      next hl =>
        cases h
        exact .created (fun b hb => by simpa using List.find?_eq_none.1 hnone b hb) hl
      · cases h
        exact .failed

theorem InOrder.closed (h : s.InOrder) (lease : Int) : (s.closed lease).InOrder where
  nodup := h.nodup.sublist (List.filter_sublist.map _)
  alive b hb := by
    obtain ⟨hb, hne⟩ := List.mem_filter.1 hb
    have hne : b.lease ≠ lease := of_decide_eq_true hne
    exact (Function.update_of_ne hne _ _).trans (h.alive b hb)

theorem Change.of_lease {secs : Nat} {ttl : Int} (h : Change s q s' reply)
    (hq : q = .grant secs) (hr : reply = .lease lease ttl) :
    s.life lease = .unborn ∧ s' = s.opened lease := by
  cases h with
  | granted hl =>
    cases hr
    exact ⟨hl, rfl⟩
  | kept => cases hq
  | revoked | created | occupied | failed => cases hr

/-- A key is made only where there is none, and with a live lease. -/
theorem Change.of_created {key owner : String} {effects : List Effect} (h : Change s q s' reply)
    (hq : q = .create key owner lease) (hr : reply = .outcome true effects) :
    (∀ b ∈ s.bindings, b.key ≠ key) ∧ s.life lease = .alive ∧
      s' = s.bound ⟨key, owner, lease⟩ := by
  cases h with
  | created hfree hl =>
    cases hq
    exact ⟨hfree, hl, rfl⟩
  | granted | revoked | kept | occupied | failed => cases hr

/-- **The store stays in order.** -/
theorem inOrder_of_change (h : s.InOrder) (he : Change s q s' reply) : s'.InOrder := by
  cases he with
  | @granted _ lease _ hl =>
    refine ⟨h.nodup, fun b hb => ?_⟩
    have hne : b.lease ≠ lease := by
      rintro rfl
      exact Life.noConfusion (hl.symm.trans (h.alive b hb))
    exact (Function.update_of_ne hne _ _).trans (h.alive b hb)
  | revoked => exact h.closed _
  | kept | occupied | failed => exact h
  | created hfree hl =>
    refine ⟨List.nodup_cons.2 ⟨fun hm => ?_, h.nodup⟩, List.forall_mem_cons.2 ⟨hl, h.alive⟩⟩
    obtain ⟨b, hb, hkey⟩ := List.mem_map.1 hm
    exact hfree b hb hkey

/-- **Only a revocation makes keys go**, and only those bound to its lease. -/
theorem mem_of_change (he : Change s q s' reply) (hb : b ∈ s.bindings) :
    b ∈ s'.bindings ∨ q = .revoke b.lease := by
  cases he with
  | granted | kept | occupied | failed => exact .inl hb
  | @revoked lease =>
    by_cases hl : b.lease = lease
    · exact .inr (by rw [hl])
    · exact .inl (List.mem_filter.2 ⟨hb, decide_eq_true hl⟩)
  | created => exact .inl (List.mem_cons_of_mem _ hb)

/-- **The life of a lease** goes on by one step at most. -/
theorem leads_of_change (he : Change s q s' reply) (lease : Int) :
    (s.life lease).Leads (s'.life lease) := by
  cases he with
  | granted hl => exact Life.Leads.update (hl ▸ .born) lease
  | revoked hl => exact Life.Leads.update (hl ▸ .dies) lease
  | kept | created | occupied | failed => exact .stays

theorem eq_closed_of_expire (h : s.expire lease = some s') :
    s.life lease = .alive ∧ s' = s.closed lease := by
  unfold expire at h
  split at h
  next hl =>
    cases h
    exact ⟨hl, rfl⟩
  · cases h

theorem leads_of_expire {lease' : Int} (h : s.expire lease' = some s') (lease : Int) :
    (s.life lease).Leads (s'.life lease) := by
  obtain ⟨hl, rfl⟩ := eq_closed_of_expire h
  exact Life.Leads.update (hl ▸ .dies) lease

end Store

end LeaseLock.Etcd
