import LeaseLock.Proofs.Etcd.Attempts

/-!
# When a refresh tells of a dead lease

**Replies on the stream** (`Reply.IsAlive`, `Reply.IsDead`). A message that keeps a lease alive is
replied to with the lease and the time it has left. A lease without any is dead. Every other reply
is a failure of some kind, and so is the end of the stream.

**Refreshes** (`Refreshed`). Every course that a refresh of a lease can go. The first message opens
the stream, and only a lease that is alive does open it: a dead one cannot be told from a server
that is out of reach. The reply to the second message decides. If the lease is dead there, it is
lost and its token is cleared; all other failures leave the token alone.

**Ticks.** A tick publishes that the lock is lost exactly if the refresh says so. A failure of
another kind is published as a failure, until no tick has succeeded for a whole lease.

Main result: `lost_iff_dead_at_second`.
-/

namespace LeaseLock.Etcd

open Talk (Course heard)

variable {ks : Keyspace} {e : Errand Int} {lease : Int} {o : Options}
  {sent : List (Request × Option Reply)}

/-! ## Replies on the stream -/

/-- The reply names a lease that has time left. -/
def Reply.IsAlive : Reply → Prop
  | .lease _ ttl => 0 < ttl
  | _ => False

/-- The reply names a lease that has no time left. -/
def Reply.IsDead : Reply → Prop
  | .lease _ ttl => ttl ≤ 0
  | _ => False

theorem Reply.IsDead.not_isAlive {reply : Reply} (h : reply.IsDead) : ¬reply.IsAlive := by
  cases reply with
  | lease id ttl => exact Int.not_lt.2 h
  | failure | revoked | outcome | closed => exact id

/-- The lease to name on the stream that the reply opens. -/
def Reply.opened : Reply → Except LockError Int
  | .lease id ttl => if ttl ≤ 0 then .error (.unavailable "lease not alive") else .ok id
  | .failure report => .error (.unavailable report)
  | _ => .error unexpected

theorem openKeepAlive_eq (lease : Int) : openKeepAlive lease =
    (Talk.question (.keepAlive lease)).bind fun reply => .done reply.opened := by
  unfold openKeepAlive
  congr 1
  funext reply
  cases reply <;> rfl

/-- **A stream is opened** exactly by a lease that is alive. -/
theorem opened_cases (reply : Reply) :
    (∃ id ttl, reply = .lease id ttl ∧ 0 < ttl ∧ reply.opened = .ok id) ∨
      ¬reply.IsAlive ∧ ∃ report, reply.opened = .error (.unavailable report) := by
  cases reply with
  | lease id ttl =>
    by_cases h : ttl ≤ 0
    · exact .inr ⟨Int.not_lt.2 h, _, if_pos h⟩
    · exact .inl ⟨id, ttl, rfl, Int.not_le.1 h, if_neg h⟩
  | failure | revoked | outcome | closed => exact .inr ⟨False.elim, _, rfl⟩

/-! ## The courses of a refresh -/

theorem refresh_eq (o : Options) (lease : Int) : refresh o (some lease) =
    ((Talk.question (.keepAlive lease)).bind fun reply => .done reply.opened).bind fun
      | .error error => .done (some lease, .error error)
      | .ok id => (Talk.question (.keepAlive id)).bind fun
        | .lease _ ttl =>
          .done (if ttl ≤ 0 then (none, .error (.lost (.lease lease o.name)))
            else (some lease, .ok ()))
        | .closed =>
          .done (some lease, .error (.garbled "keep-alive stream closed without a response"))
        | .failure report => .done (some lease, .error (.unavailable report))
        | _ => .done (some lease, .error unexpected) := by
  rw [← openKeepAlive_eq]
  rfl

/-- The lease is lost, and its token is cleared. -/
def lostOf (lease : Int) (o : Options) : Option Int × Except LockError Unit :=
  (none, .error (.lost (.lease lease o.name)))

/-- What a refresh of a lease can come to. -/
inductive Refreshed (lease : Int) (o : Options) :
    List (Request × Option Reply) → Option (Option Int × Except LockError Unit) → Prop
  /-- The stream is not opened, and the server counts as out of reach. -/
  | unopened {reply : Reply} {report : String} : ¬reply.IsAlive →
      Refreshed lease o [(.keepAlive lease, some reply)]
        (some (some lease, .error (.unavailable report)))
  | alive {id ttl : Int} {reply : Reply} : 0 < ttl → reply.IsAlive →
      Refreshed lease o
        [(.keepAlive lease, some (.lease id ttl)), (.keepAlive id, some reply)]
        (some (some lease, .ok ()))
  | lost {id ttl : Int} {reply : Reply} : 0 < ttl → reply.IsDead →
      Refreshed lease o
        [(.keepAlive lease, some (.lease id ttl)), (.keepAlive id, some reply)]
        (some (lostOf lease o))
  /-- The stream breaks off. -/
  | broken {id ttl : Int} {reply : Reply} {error : LockError} : 0 < ttl → ¬reply.IsAlive →
      ¬reply.IsDead → error.IsOrdinary → Refreshed lease o
        [(.keepAlive lease, some (.lease id ttl)), (.keepAlive id, some reply)]
        (some (some lease, .error error))
  | cutOpening : Refreshed lease o [(.keepAlive lease, none)] none
  | cutKeeping {id ttl : Int} : 0 < ttl → Refreshed lease o
      [(.keepAlive lease, some (.lease id ttl)), (.keepAlive id, none)] none

variable {r : Option (Option Int × Except LockError Unit)}

/-- **Every course of a refresh of a lease** is one of these. -/
theorem refreshed_of_course (h : Course (refresh o (some lease)) sent r) :
    Refreshed lease o sent r := by
  rw [refresh_eq] at h
  rcases Course.of_read h with ⟨first, s, rfl, hrest⟩ | ⟨rfl, rfl⟩
  · rcases opened_cases first with ⟨id, ttl, rfl, hpos, hopened⟩ | ⟨halive, report, hopened⟩
    · rw [hopened] at hrest
      rcases Course.of_ask hrest with ⟨second, s, rfl, hend⟩ | ⟨rfl, rfl⟩
      · cases second with
        | lease id' ttl' =>
          by_cases hdead : ttl' ≤ 0
          · simp only [Talk.done_bind, if_pos hdead] at hend
            obtain ⟨rfl, rfl⟩ := Course.of_done hend
            exact .lost hpos hdead
          · simp only [Talk.done_bind, if_neg hdead] at hend
            obtain ⟨rfl, rfl⟩ := Course.of_done hend
            exact .alive hpos (Int.not_le.1 hdead)
        | closed =>
          obtain ⟨rfl, rfl⟩ := Course.of_done hend
          exact .broken hpos not_false not_false (LockError.isOrdinary_garbled _)
        | failure | revoked | outcome =>
          obtain ⟨rfl, rfl⟩ := Course.of_done hend
          exact .broken hpos not_false not_false (LockError.isOrdinary_unavailable _)
      · exact .cutKeeping hpos
    · rw [hopened] at hrest
      obtain ⟨rfl, rfl⟩ := Course.of_done hrest
      exact .unopened halive
  · exact .cutOpening

/-! ## What a refresh and a tick make of a dead lease -/

/-- The stream was opened by a lease that was alive, and then the lease was dead. -/
def DeadAtSecond (sent : List (Request × Option Reply)) : Prop :=
  ∃ first second, heard sent = [first, second] ∧ first.IsAlive ∧ second.IsDead

/-- The lease was alive in both replies. -/
def AliveInBoth (sent : List (Request × Option Reply)) : Prop :=
  ∃ first second, heard sent = [first, second] ∧ first.IsAlive ∧ second.IsAlive

theorem Refreshed.verdict {x : Option Int × Except LockError Unit}
    (h : Refreshed lease o sent (some x)) :
    (x = lostOf lease o ∧ DeadAtSecond sent ∧ ¬AliveInBoth sent) ∨
      (x = (some lease, .ok ()) ∧ AliveInBoth sent ∧ ¬DeadAtSecond sent) ∨
      ∃ error, error.IsOrdinary ∧ x = (some lease, .error error) ∧ ¬DeadAtSecond sent ∧
        ¬AliveInBoth sent := by
  cases h with
  | unopened halive =>
    exact .inr (.inr ⟨_, LockError.isOrdinary_unavailable _, rfl, by simp [DeadAtSecond, heard],
      by simp [AliveInBoth, heard]⟩)
  | alive hpos halive =>
    refine .inr (.inl ⟨rfl, ⟨_, _, rfl, hpos, halive⟩, ?_⟩)
    rintro ⟨_, _, heq, -, hdead⟩
    cases heq
    exact hdead.not_isAlive halive
  | lost hpos hdead =>
    refine .inl ⟨rfl, ⟨_, _, rfl, hpos, hdead⟩, ?_⟩
    rintro ⟨_, _, heq, -, halive⟩
    cases heq
    exact hdead.not_isAlive halive
  | broken hpos halive hdead hordinary =>
    refine .inr (.inr ⟨_, hordinary, rfl, ?_, ?_⟩)
    · rintro ⟨_, _, heq, -, h⟩
      cases heq
      exact hdead h
    · rintro ⟨_, _, heq, -, h⟩
      cases heq
      exact halive h

/-- What a tick publishes when its refresh has come out as `r`: an error that tells neither of a
loss nor of a lock that is not held counts as a loss only after a whole lease. -/
theorem health_of_tick {l : Locker} {t : Ticker} {since : Instant} (now : Instant)
    (ht : l.ticker = some t) (hs : t.stage = .calling since) (r : Except LockError Unit)
    (draw : Nat) :
    ∃ l', l.answer now .ticker (.refresh r) draw = some (l', []) ∧
      (∀ loss, r = .error (.lost loss) → l'.health = .lost (.told loss) ∧ l'.ticker = none) ∧
      (r = .ok () → l'.health = .healthy) ∧
      ∀ error, r = .error error → error.IsOrdinary →
        l'.health = if l.options.lease.nanos ≤ now - t.renewed then .lost (.lapsed error)
          else .failing (.unrenewed error) t.renewed := by
  obtain ⟨due, renewed, stage⟩ := t
  cases hs
  refine ⟨l.answerTicker now ⟨due, renewed, .calling since⟩ r, ?_, ?_, ?_, ?_⟩
  · simp [Locker.answer, Locker.callingSince, ht]
  · rintro loss rfl
    exact ⟨rfl, rfl⟩
  · rintro rfl
    rfl
  · rintro error rfl ⟨hheld, hlost⟩
    rw [Locker.answerTicker_eq]
    unfold Ticker.settle
    split
    next h => cases h
    next h => exact absurd (Except.error.inj h) hheld
    next h => exact absurd (Except.error.inj h) (hlost _)
    next h =>
      cases h
      split <;> rfl

/-- **A refresh tells of a dead lease exactly if the lease was alive when the stream was opened**
and dead in the second reply. Then the token is cleared, and a tick publishes at once that the lock
is lost. All is well exactly if the lease was alive in both replies. Whatever else is replied, a
lease that is dead at once included, comes out as an error of another kind that leaves the token in
place, and a tick publishes it as a failure until no tick has succeeded for a whole lease. -/
theorem lost_iff_dead_at_second (ks : Keyspace) {e : Errand Int} (ht : e.token = some lease) :
    (∀ answers : Nat → Reply, ∃ sent x n, Course (ks.adapter e .refresh) sent (some x) ∧
      heard sent = (List.range n).map answers) ∧
    ∀ sent x, Course (ks.adapter e .refresh) sent (some x) →
      (x = (none, .refresh (.error (.lost (.lease lease e.options.name)))) ↔ DeadAtSecond sent) ∧
      (x = (some lease, .refresh (.ok ())) ↔ AliveInBoth sent) ∧
      (¬DeadAtSecond sent → ¬AliveInBoth sent →
        ∃ error, error.IsOrdinary ∧ x = (some lease, .refresh (.error error))) ∧
      ∀ (l : Locker) (t : Ticker) (since now : Instant) (draw : Nat), l.ticker = some t →
        t.stage = .calling since → ∃ l', l.answer now .ticker x.2 draw = some (l', []) ∧
          (l'.health = .lost (.told (.lease lease e.options.name)) ↔ DeadAtSecond sent) ∧
          (DeadAtSecond sent → l'.ticker = none) ∧
          (l'.health = .healthy ↔ AliveInBoth sent) ∧
          (¬DeadAtSecond sent → ¬AliveInBoth sent → now - t.renewed < l.options.lease.nanos →
            ∃ error, l'.health = .failing (.unrenewed error) t.renewed) := by
  refine ⟨Talk.exists_course _, ?_⟩
  intro sent x h
  obtain ⟨r, hr, hcourse⟩ := Course.of_map h
  rw [ht] at hcourse
  cases r with
  | none => cases hr
  | some y =>
    cases hr
    rcases (refreshed_of_course hcourse).verdict with
      ⟨rfl, hdead, halive⟩ | ⟨rfl, halive, hdead⟩ | ⟨error, hordinary, rfl, hdead, halive⟩
    · refine ⟨iff_of_true rfl hdead, iff_of_false nofun halive, fun h => absurd hdead h, ?_⟩
      intro l t since now draw hticker hstage
      obtain ⟨l', hanswer, htold, -⟩ := health_of_tick now hticker hstage
        (lostOf lease e.options).2 draw
      obtain ⟨hhealth, hended⟩ := htold _ rfl
      exact ⟨l', hanswer, iff_of_true hhealth hdead, fun _ => hended,
        iff_of_false (by simp [hhealth]) halive, fun h => absurd hdead h⟩
    · refine ⟨iff_of_false nofun hdead, iff_of_true rfl halive, fun _ h => absurd halive h, ?_⟩
      intro l t since now draw hticker hstage
      obtain ⟨l', hanswer, -, hhealthy, -⟩ := health_of_tick now hticker hstage (.ok ()) draw
      exact ⟨l', hanswer, iff_of_false (by simp [hhealthy rfl]) hdead, fun h => absurd h hdead,
        iff_of_true (hhealthy rfl) halive, fun _ h => absurd halive h⟩
    · refine ⟨iff_of_false ?_ hdead, iff_of_false nofun halive,
        fun _ _ => ⟨error, hordinary, rfl⟩, ?_⟩
      · nofun
      intro l t since now draw hticker hstage
      obtain ⟨l', hanswer, -, -, hfails⟩ := health_of_tick now hticker hstage
        (.error error) draw
      have hhealth := hfails error rfl hordinary
      refine ⟨l', hanswer, iff_of_false ?_ hdead, fun h => absurd h hdead, iff_of_false ?_ halive,
        fun _ _ hearly => ⟨error, ?_⟩⟩
      · rw [hhealth]
        split <;> simp
      · rw [hhealth]
        split <;> simp
      · rw [hhealth, if_neg (Nat.not_le.2 hearly)]

/-- A refresh of a lease that runs out between the two messages. -/
theorem lost_of_dead_at_second :
    let e : Errand Int := ⟨{ owner := "a" }, { owner := "a" }, some 7, 0, 0⟩
    let sent := [(.keepAlive 7, some (.lease 7 1)), (.keepAlive 7, some (.lease 7 0))]
    let x : Option Int × Answer := (none, .refresh (.error (.lost (.lease 7 e.options.name))))
    e.token = some 7 ∧ Course (Keyspace.adapter {} e .refresh) sent (some x) ∧
      DeadAtSecond sent := by
  intro e sent x
  have hcourse : Course (Keyspace.adapter {} e .refresh) sent (some x) := .heard (.heard .done)
  obtain ⟨hlost, -⟩ := (lost_iff_dead_at_second {} (e := e) rfl).2 sent x hcourse
  exact ⟨rfl, hcourse, hlost.1 rfl⟩

/-- A server that grants a lease and a key, and then finds the lease dead. -/
def expiring : Remote (Prompter Request Reply) Request Reply Int where
  server := {
    answers := [fun _ => some (.lease 7 10), fun _ => some (.outcome true [])]
    final := .lease 7 0 }
  adapter := Keyspace.adapter {}

/-- **A lease that is dead at once is not told of**: the tick publishes a failure, and the token
stays. -/
theorem failing_of_dead_at_once :
    ∃ (w : World (Remote (Prompter Request Reply) Request Reply Int)) (c : World.Chronicle)
      (l : Locker),
      World.Run (·.adapter = Keyspace.adapter {}) Remote.Served w c ∧ w.lockers[0]? = some l ∧
        l.phase = .held ∧ l.health = .failing (.unrenewed (.unavailable "lease not alive")) 0 ∧
        w.service.token? 0 = some 7 ∧
        w.service.server.asked =
          [.grant 10, .create "gala-distributed-lock" "a" 7, .keepAlive 7] := by
  have start : World.Run (·.adapter = Keyspace.adapter {}) Remote.Served
      { service := expiring } fun _ => [] := .start rfl
  have run := start.replay takeThenTick (Option.some_get rfl).symm
  exact ⟨_, _, _, run, rfl, rfl, rfl, rfl, by decide +kernel⟩

end LeaseLock.Etcd
