import LeaseLock.Consul.Adapter
import LeaseLock.Proofs.Etcd.Dialogues
import LeaseLock.Proofs.Options
import LeaseLock.Proofs.Remote.Courses
import LeaseLock.Redis.Adapter

/-!
# Times to live in whole seconds

Three of the services count leases in seconds, and are told how many with the request that writes
the record.

**What is sent** (`lifetimes`). The times to live among the requests of a course, in their order. On
every course of every operation they are the ones computed from the options (`Sets`), and the
operations that write a record send one.

**Enough, and not much more** (`Options.CoveredBy`). A usable lease fits into its seconds, with the
time between renewals to spare, and less than a second is added. Sessions of Consul live ten seconds
at least, and a day is the most that is ever needed.

Main result: `lifetimes_cover_lease`.
-/

namespace LeaseLock

open Talk (Course Says)

/-! ## What is sent -/

/-- The time to live that a command gives a key, in seconds. -/
def Redis.Command.lifetime? : Redis.Command → Option Nat
  | .setAbsent _ _ secs | .eval (.extend secs) _ _ => some secs
  | .get _ | .eval .remove _ _ => none

/-- The time to live that a lease is asked for with, in seconds. -/
def Etcd.Request.lifetime? : Etcd.Request → Option Nat
  | .grant secs => some secs
  | .revoke _ | .keepAlive _ | .create .. => none

/-- The time to live that a session is created with, in seconds. -/
def Consul.Question.lifetime? : Consul.Question → Option Nat
  | .openSession _ ttl => some ttl
  | .keepSession _ | .closeSession _ | .acquire .. | .get _ | .deleteAt .. => none

section Courses

variable {Q A α β τ : Type} {life : Q → Option Nat} {secs : Nat} {t : Talk Q A α}
  {sent : List (Q × Option A)} {r : Option α} {q : Q} {o : Options}

/-- The times to live that were sent, in order. -/
def lifetimes (life : Q → Option Nat) (sent : List (Q × Option A)) : List Nat :=
  sent.filterMap fun p => life p.1

/-- A question that gives a time to live gives this one. -/
def Gives (life : Q → Option Nat) (secs : Nat) (q : Q) : Prop := ∀ n, life q = some n → n = secs

theorem eq_of_mem_lifetimes (h : ∀ p ∈ sent, Gives life secs p.1) {n : Nat}
    (hn : n ∈ lifetimes life sent) : n = secs := by
  obtain ⟨p, hp, hlife⟩ := List.mem_filterMap.1 hn
  exact h p hp n hlife

theorem mem_lifetimes {owed : List Q} {next : A → Talk Q A α}
    (h : Course (.ask q owed next) sent r) (hq : life q = some secs) :
    secs ∈ lifetimes life sent := by
  unfold lifetimes
  rcases h.of_ask with ⟨b, s, rfl, -⟩ | ⟨rfl, -⟩ <;> simp [hq]

/-- On every course of an operation for these options, no other time to live is sent than the one
given, and the operations in the list send it. -/
structure Sets (adapter : Adapter Q A τ) (life : Q → Option Nat) (o : Options) (ops : List Op)
    (secs : Nat) : Prop where
  only : ∀ (e : Errand τ) op sent r, e.options = o → Course (adapter e op) sent r →
    ∀ n ∈ lifetimes life sent, n = secs
  sends : ∀ (e : Errand τ), ∀ op ∈ ops, ∀ sent r, e.options = o → Course (adapter e op) sent r →
    secs ∈ lifetimes life sent

end Courses

/-! ## The three services -/

namespace Redis

variable {key : String} {o : Options}

theorem says_extend : (extend key o).Says (Gives Command.lifetime? o.wholeSecs) :=
  Says.reading (fun _ h => (Option.some.inj h).symm) _

theorem says_acquireWithin (rounds : Nat) :
    (acquireWithin key o rounds).Says (Gives Command.lifetime? o.wholeSecs) := by
  induction rounds with
  | zero => exact .done _
  | succ rounds ih =>
    refine Says.bind (.question fun _ h => (Option.some.inj h).symm) fun reply => ?_
    split
    · exact .done _
    · exact .done _
    · refine Says.bind (.question nofun) fun reply => ?_
      split
      · exact .done _
      · exact ih
      · split
        · exact .done _
        · refine says_extend.bind fun r => ?_
          split
          · exact .done _
          · exact .done _
          · exact ih

theorem says_refresh : (refresh key o).Says (Gives Command.lifetime? o.wholeSecs) := by
  refine says_extend.bind fun r => ?_
  split <;> exact .done _

/-- A key lives as long as it was set for, and then as long as it was extended for. -/
theorem sets_adapter (ks : Keyspace) (o : Options) :
    Sets ks.adapter Command.lifetime? o [.acquire, .refresh] o.wholeSecs where
  only := by
    rintro e op sent r rfl h n hn
    refine eq_of_mem_lifetimes (h.said ?_) hn
    cases op with
    | acquire => exact (says_acquireWithin 2).bind fun _ => .done _
    | refresh => exact says_refresh.bind fun _ => .done _
    | release => exact Says.bind (Says.reading nofun _) fun _ => .done _
  sends := by
    rintro e op hop sent r rfl h
    simp only [List.mem_cons, List.not_mem_nil, or_false] at hop
    rcases hop with rfl | rfl <;> exact mem_lifetimes h rfl

end Redis

/-- A lease lives as long as it was granted for; keeping it alive asks for no time. -/
theorem Etcd.sets_adapter (ks : Etcd.Keyspace) (o : Options) :
    Sets ks.adapter Etcd.Request.lifetime? o [.acquire] o.wholeSecs where
  only := by
    rintro e op sent r rfl h n hn
    refine eq_of_mem_lifetimes (fun p hp => ?_) hn
    obtain ⟨past, hmay⟩ := h.exists_may (Etcd.rule_binds ks (fun _ => e.own) ⟨0, e, op⟩) p hp
    generalize p.1 = q at hmay
    cases hmay with
    | grant => exact fun _ h => (Option.some.inj h).symm
    | create | giveBack | keepAlive | revoke => exact nofun
  sends := by
    rintro e op hop sent r rfl h
    obtain rfl := List.mem_singleton.1 hop
    exact mem_lifetimes h rfl

namespace Consul

variable {key session : String} {o : Options} {token : Option String} {secs : Nat}

theorem says_ownerOf : (ownerOf key).Says (Gives Question.lifetime? secs) := by
  refine Says.bind (Says.reading nofun _) fun found => ?_
  split <;> exact .done _

theorem says_closeSession : (closeSession session).Says (Gives Question.lifetime? secs) :=
  Says.reading nofun _

theorem says_acquire : (acquire key o token).Says (Gives Question.lifetime? (lifetime o)) := by
  refine Says.bind (Says.reading (fun _ h => (Option.some.inj h).symm) _) fun opened => ?_
  split
  · exact .done _
  · refine Says.owing (Says.bind (Says.reading nofun _) fun taken => ?_)
      (List.forall_mem_singleton.2 nofun)
    split
    · exact .done _
    · exact says_ownerOf.bind fun _ => says_closeSession.discard.bind fun _ => .done _
    · exact says_closeSession.discard.bind fun _ => .done _

theorem says_refresh : (refresh o token).Says (Gives Question.lifetime? secs) := by
  unfold refresh
  split
  · exact .done _
  · refine Says.bind (Says.reading nofun _) fun kept => ?_
    split <;> exact .done _

theorem says_deleteHeld : (deleteHeld key session).Says (Gives Question.lifetime? secs) := by
  refine Says.bind (Says.reading nofun _) fun found => ?_
  split
  · exact .done _
  · exact .done _
  · split
    · exact Says.bind (Says.reading nofun _) fun _ => .done _
    · exact .done _

theorem says_release : (release key token).Says (Gives Question.lifetime? secs) := by
  unfold release
  split
  · exact .done _
  · refine says_deleteHeld.bind fun deleted => ?_
    split
    · exact .done _
    · refine says_closeSession.bind fun closed => ?_
      split <;> exact .done _

/-- A session lives as long as it was created for; renewing it asks for no time. -/
theorem sets_adapter (ks : Keyspace) (o : Options) :
    Sets ks.adapter Question.lifetime? o [.acquire] (lifetime o) where
  only := by
    rintro e op sent r rfl h n hn
    refine eq_of_mem_lifetimes (h.said ?_) hn
    cases op with
    | acquire => exact says_acquire.bind fun _ => .done _
    | refresh => exact says_refresh.bind fun _ => .done _
    | release => exact says_release.bind fun _ => .done _
  sends := by
    rintro e op hop sent r rfl h
    obtain rfl := List.mem_singleton.1 hop
    exact mem_lifetimes h rfl

end Consul

/-! ## Enough, and not much more -/

namespace Options

variable {o : Options}

/-- The seconds are no shorter than the lease, longer than the time between renewals, and less than
a second longer than the lease. -/
structure CoveredBy (o : Options) (secs : Nat) : Prop where
  lease_le : o.lease ≤ .ofSecs secs
  interval_lt : o.interval < .ofSecs secs
  lt_add : (Duration.ofSecs secs).nanos < o.lease.nanos + Duration.perSecond

theorem Usable.coveredBy (h : o.Usable) : o.CoveredBy o.wholeSecs := by
  rw [h.wholeSecs_eq]
  have hle := o.lease.le_ofSecs_coveringSecs
  exact ⟨hle, Nat.lt_of_lt_of_le h.interval_lt hle, Duration.ofSecs_coveringSecs_lt h.lease_pos⟩

/-- The seconds of a session: as many as the lease has, unless these are fewer than ten. -/
theorem Usable.lifetime_eq (h : o.Usable) : Consul.lifetime o = max 10 o.wholeSecs := by
  have hday : o.wholeSecs ≤ 86400 := h.wholeSecs_eq ▸ h.coveringSecs_le
  exact Nat.min_eq_left (Nat.max_le.2 ⟨by decide, hday⟩)

end Options

/-- **Records live as long as their lease.** The seconds of any lease are the least number, at least
one, that covers it, cut at 64 bits; and a longer lease never has fewer. For usable options,
whatever the server answers and wherever the client is cut off, Redis and etcd are sent a time to
live that covers the lease and the time between renewals, and is less than a second longer than the
lease. The sessions of Consul get between ten seconds and a day, which cover the lease, and exactly
its seconds if these are ten or more. -/
theorem lifetimes_cover_lease :
    (∀ o : Options, ∃ n, IsLeast {n | 1 ≤ n ∧ o.lease ≤ .ofSecs n} n ∧
      o.wholeSecs = min n maxInt64) ∧
    (∀ o o' : Options, o.lease ≤ o'.lease → o.wholeSecs ≤ o'.wholeSecs) ∧
    ∀ o : Options, o.check = .ok () →
      (∀ ks : Redis.Keyspace, ∃ secs,
        Sets ks.adapter Redis.Command.lifetime? o [.acquire, .refresh] secs ∧
          o.CoveredBy secs) ∧
      (∀ ks : Etcd.Keyspace, ∃ secs,
        Sets ks.adapter Etcd.Request.lifetime? o [.acquire] secs ∧ o.CoveredBy secs) ∧
      ∀ ks : Consul.Keyspace, ∃ secs,
        Sets ks.adapter Consul.Question.lifetime? o [.acquire] secs ∧
          10 ≤ secs ∧ secs ≤ 86400 ∧ o.lease ≤ .ofSecs secs ∧
          (10 ≤ o.wholeSecs → secs = o.wholeSecs) := by
  refine ⟨fun o => ⟨_, o.lease.isLeast_coveringSecs, rfl⟩, fun _ _ => Options.wholeSecs_mono, ?_⟩
  intro o ho
  have usable := Options.check_eq_ok_iff.1 ho
  have covered := usable.coveredBy
  refine ⟨fun ks => ⟨_, Redis.sets_adapter ks o, covered⟩,
    fun ks => ⟨_, Etcd.sets_adapter ks o, covered⟩,
    fun ks => ⟨_, Consul.sets_adapter ks o, ?_, Nat.min_le_right .., ?_, ?_⟩⟩
  · rw [usable.lifetime_eq]
    exact Nat.le_max_left ..
  · rw [usable.lifetime_eq]
    exact Nat.le_trans covered.lease_le (Duration.ofSecs_mono (Nat.le_max_right ..))
  · rw [usable.lifetime_eq]
    exact Nat.max_eq_right

/-- A lease of two and a half seconds. -/
def oddLease : Options := { owner := "a", lease := .ofMillis 2500 }

/-- What is sent, and what is heard, by an attempt that finds our own key and extends it. -/
def extending : List (Redis.Command × Option Redis.Reply) :=
  ((Redis.Keyspace.adapter {} ⟨oddLease, oddLease, none, 0, 0⟩ .acquire).courseOf
    [.nil, .text "a", .number 1]).1

/-- What is sent by an attempt that is cut off before it has a session. -/
def opening : List (Consul.Question × Option Http.Reply) :=
  ((Consul.Keyspace.adapter ⟨⟨"http://agent", none⟩, ""⟩ ⟨oddLease, oddLease, none, 0, 0⟩
    .acquire).courseOf []).1

/-- Three seconds are sent twice to Redis, and cover the lease. A session gets ten. -/
theorem lifetimes_cover_lease_odd :
    oddLease.check = .ok () ∧
    lifetimes Redis.Command.lifetime? extending = [3, 3] ∧ oddLease.CoveredBy 3 ∧
    lifetimes Consul.Question.lifetime? opening = [10] ∧ oddLease.lease ≤ .ofSecs 10 := by
  have usable : oddLease.check = .ok () := rfl
  have hkey : lifetimes Redis.Command.lifetime? extending = [3, 3] := by decide
  have hsession : lifetimes Consul.Question.lifetime? opening = [10] := by decide
  obtain ⟨-, -, covers⟩ := lifetimes_cover_lease
  obtain ⟨redis, -, consul⟩ := covers oddLease usable
  refine ⟨usable, hkey, ?_, hsession, ?_⟩
  · obtain ⟨secs, sets, covered⟩ := redis {}
    obtain rfl : 3 = secs := sets.only _ .acquire extending _ rfl (Talk.course_courseOf _ _) 3
      (hkey ▸ List.mem_cons_self)
    exact covered
  · obtain ⟨secs, sets, -, -, hle, -⟩ := consul _
    obtain rfl : 10 = secs := sets.only _ .acquire opening _ rfl (Talk.course_courseOf _ _) 10
      (hsession ▸ List.mem_cons_self)
    exact hle

end LeaseLock
