import LeaseLock.Proofs.Consul.Attempts
import LeaseLock.Proofs.Etcd.Attempts

/-!
# What becomes of a refusal

**Refusals** (`Consul.Refused`, `Etcd.Refused`). The server has answered the conditional write of an
attempt: the key belongs to another. What the attempt still sends only asks who that is, and gives
back what the attempt has created.

**With sessions** nothing that is replied to the rest changes the outcome: the key is occupied
(`Consul.occupied_of_refused`).

**With leases** it is so exactly if the attempt hears that its lease is gone. Otherwise the failure
to revoke the lease takes the place of the refusal (`Etcd.occupied_or_unavailable_of_refused`).

**At a locker** the difference shows: the holder's name is returned, or the caller naps until its
next attempt (`Locker.acquire_naps`), but a server that is out of reach ends the call at once
(`Locker.returns_unavailable`).

Main result: `occupied_iff_lease_gone`.
-/

namespace LeaseLock

open Talk (Course)

/-! ## Attempts with sessions -/

namespace Consul

variable {ks : Keyspace} {e : Errand String} {key session : String} {o : Options}
  {token : Option String} {sent : List (Question × Option Http.Reply)} {x : Option String × Answer}

/-- The agent has said that the key was not acquired. -/
def Refused (sent : List (Question × Option Http.Reply)) : Prop :=
  ∃ key session owner reply, (.acquire key session owner, some reply) ∈ sent ∧
    flagIn? reply = some false

theorem Refused.of_cons_openSession {name : String} {ttl : Nat} {a : Option Http.Reply}
    (h : Refused ((.openSession name ttl, a) :: sent)) : Refused sent := by
  simpa [Refused] using h

theorem Tried.occupied {y : Outcome} (h : Tried key o token session sent (some y))
    (hr : Refused sent) : ∃ owner, y = (token, .ok (.occupied owner)) := by
  obtain ⟨key', session', owner', reply', hmem, hflag⟩ := hr
  cases h with
  | granted hf =>
    simp only [List.mem_singleton, Prod.mk.injEq, Option.some.injEq] at hmem
    rw [← hmem.2, hflag] at hf
    cases hf
  | refused _ hd => exact ⟨_, hd.closings.2 y rfl⟩
  | failed hf hd =>
    cases hd with
    | closed =>
      simp only [List.mem_cons, Prod.mk.injEq, Option.some.injEq, reduceCtorEq, false_and,
        List.not_mem_nil, or_false] at hmem
      rw [← hmem.2, hflag] at hf
      cases hf

/-- **A refused attempt reports contention**, whatever else is replied. -/
theorem occupied_of_refused (h : Course (ks.adapter e .acquire) sent (some x))
    (hr : Refused sent) : ∃ owner, x = (e.token, .acquire (.ok (.occupied owner))) := by
  obtain ⟨r, hx, ha⟩ := attempted_of_course h
  cases ha with
  | cut | abandoned => cases hx
  | unopened => simp [Refused] at hr
  | tried _ ht =>
    cases hx
    obtain ⟨owner, rfl⟩ := ht.occupied hr.of_cons_openSession
    exact ⟨owner, rfl⟩

end Consul

/-! ## Attempts with leases -/

namespace Etcd

variable {ks : Keyspace} {e : Errand Int} {key : String} {lease : Int} {o : Options}
  {token : Option Int} {sent : List (Request × Option Reply)} {x : Option Int × Answer}

/-- The server has said that the key was not made. -/
def Refused (sent : List (Request × Option Reply)) : Prop :=
  ∃ key owner lease effects, (.create key owner lease, some (.outcome false effects)) ∈ sent

theorem Refused.of_cons_grant {secs : Nat} {a : Option Reply}
    (h : Refused ((.grant secs, a) :: sent)) : Refused sent := by
  simpa [Refused] using h

theorem unavailable_of_not_freed {reply : Reply} {error : LockError}
    (h : reply.freed = .error error) : ∃ report, error = .unavailable report := by
  cases reply with
  | revoked => cases h
  | failure report =>
    by_cases hg : saysLeaseGone report = true
    · simp [Reply.freed, hg] at h
    · simp only [Reply.freed, if_neg hg, Except.error.injEq] at h
      exact ⟨report, h.symm⟩
  | lease | outcome | closed =>
    cases h
    exact ⟨_, rfl⟩

/-- The outcome of a refused attempt hangs on what it hears of its lease. -/
theorem Tried.occupied_or_unavailable {y : Outcome}
    (h : Tried key o token lease sent (some y)) (hr : Refused sent) :
    (HearsGone sent lease ∧ ∃ owner, y = (token, .ok (.occupied owner))) ∨
      (∀ lease', ¬HearsGone sent lease') ∧ ∃ report, y = (token, .error (.unavailable report)) := by
  obtain ⟨key', owner', lease', effects, hmem⟩ := hr
  cases h with
  | granted ht | failed ht =>
    simp only [List.mem_cons, Prod.mk.injEq, Option.some.injEq, reduceCtorEq, false_and,
      List.not_mem_nil, or_false] at hmem
    rw [← hmem.2] at ht
    cases ht
  | @refused _ reply' owner _ hfreed =>
    exact .inl ⟨⟨reply', by simp, freed_eq_ok_iff.1 hfreed⟩, owner, rfl⟩
  | @unconfirmed _ reply' _ error _ hfreed =>
    obtain ⟨report, rfl⟩ := unavailable_of_not_freed hfreed
    refine .inr ⟨?_, report, rfl⟩
    rintro lease'' ⟨reply'', hmem', hgone⟩
    obtain rfl : reply'' = reply' := by
      simp only [List.mem_cons, Prod.mk.injEq, reduceCtorEq, false_and, false_or, and_false,
        Option.some.injEq, List.not_mem_nil, or_false] at hmem'
      exact hmem'.2
    rw [freed_eq_ok_iff.2 hgone] at hfreed
    cases hfreed

/-- **A refused attempt reports contention** exactly if it hears that its lease is gone; if not, the
failure to revoke the lease is reported. -/
theorem occupied_or_unavailable_of_refused (h : Course (ks.adapter e .acquire) sent (some x))
    (hr : Refused sent) :
    ((∃ lease, HearsGone sent lease) ∧ ∃ owner, x = (e.token, .acquire (.ok (.occupied owner)))) ∨
      (¬∃ lease, HearsGone sent lease) ∧
        ∃ report, x = (e.token, .acquire (.error (.unavailable report))) := by
  obtain ⟨r, hx, ha⟩ := attempted_of_course h
  cases ha with
  | cut | abandoned => cases hx
  | ungranted => simp [Refused] at hr
  | tried _ ht =>
    cases hx
    rcases ht.occupied_or_unavailable hr.of_cons_grant with ⟨hg, owner, rfl⟩ | ⟨hn, report, rfl⟩
    · exact .inl ⟨⟨_, hearsGone_cons_grant.2 hg⟩, owner, rfl⟩
    · refine .inr ⟨?_, report, rfl⟩
      rintro ⟨lease', hg⟩
      exact hn lease' (hearsGone_cons_grant.1 hg)

end Etcd

/-! ## At a locker -/

namespace Locker

variable {l : Locker} {n : Nat} {verb : Verb} {began since now : Instant} {draw : Nat}

/-- What a failed attempt comes to is settled by `Locker.retry`. -/
theorem answer_failed (hc : l.caller? n = some ⟨verb, began, .calling since⟩)
    (hv : verb.op = some .acquire) (error : LockError) :
    l.answer now (.caller n) (.acquire (.error error)) draw =
      some (l.retry now n ⟨verb, began, .calling since⟩ error draw) := by
  simp [answer, callingSince, hc, answerCaller, hv, Answer.op]

theorem answer_occupied (hc : l.caller? n = some ⟨verb, began, .calling since⟩)
    (hv : verb.op = some .acquire) (owner : Option String) :
    l.answer now (.caller n) (.acquire (.ok (.occupied owner))) draw =
      some (l.retry now n ⟨verb, began, .calling since⟩ (.contended l.options.name owner)
        draw) := by
  simp [answer, callingSince, hc, answerCaller, hv, Answer.op]

theorem lock_returns_contended (hc : l.caller? n = some ⟨.lock, began, .calling since⟩)
    (owner : Option String) :
    ∃ l', l.answer now (.caller n) (.acquire (.ok (.occupied owner))) draw =
      some (l', [.returned n (.error (.contended l.options.name owner))]) :=
  ⟨_, answer_occupied hc rfl owner⟩

/-- A caller that met another holder before its limit naps, and will try again. -/
theorem acquire_naps {limit : Option Duration}
    (hc : l.caller? n = some ⟨.acquire limit, began, .calling since⟩)
    (hlimit : ∀ d, limit = some d → now - began < d.nanos) (owner : Option String) :
    ∃ l' til, l.answer now (.caller n) (.acquire (.ok (.occupied owner))) draw = some (l', []) ∧
      l'.caller? n = some ⟨.acquire limit, began, .napping til⟩ := by
  have napping (til : Instant) (guard : Guard) :
      ({ l.moveCaller n (.napping til) with guard } : Locker).caller? n =
        some ⟨.acquire limit, began, .napping til⟩ := caller?_moved hc (.napping til)
  rw [answer_occupied hc rfl]
  cases limit with
  | none => exact ⟨_, _, rfl, napping _ _⟩
  | some d =>
    let nap : Duration := ⟨min (l.options.nap draw).nanos (d.nanos - (now - began))⟩
    refine ⟨_, nap.after now, congrArg some ?_, napping _ (l.guard.leave (.caller n))⟩
    unfold retry
    exact if_neg (Nat.not_le.2 (hlimit d rfl))

theorem acquire_times_out {d : Duration}
    (hc : l.caller? n = some ⟨.acquire (some d), began, .calling since⟩)
    (hlimit : d.nanos ≤ now - began) (owner : Option String) :
    ∃ l', l.answer now (.caller n) (.acquire (.ok (.occupied owner))) draw =
      some (l', [.returned n (.error (.timedOut d))]) := by
  rw [answer_occupied hc rfl]
  refine ⟨l.removeCaller n, congrArg some ?_⟩
  unfold retry
  exact if_pos hlimit

/-- A server that is out of reach ends the call, whether it makes one attempt or many. -/
theorem returns_unavailable (hc : l.caller? n = some ⟨verb, began, .calling since⟩)
    (hv : verb.op = some .acquire) (report : String) :
    ∃ l', l.answer now (.caller n) (.acquire (.error (.unavailable report))) draw =
      some (l', [.returned n (.error (.unavailable report))]) := by
  rw [answer_failed hc hv]
  cases verb with
  | lock | acquire => exact ⟨_, rfl⟩
  | unlock | refresh | state => cases hv

end Locker

/-- **A refusal is reported as contention**, with sessions whatever is replied to the rest of the
attempt, and with leases exactly if the attempt hears that its lease is gone; if it does not, it
reports that the server is out of reach. A call that makes one attempt returns contention with the
holder's name, and a call that waits for the lock naps until its next attempt, unless its limit has
passed. But both end at once when the server is out of reach. -/
theorem occupied_iff_lease_gone (ks : Consul.Keyspace) (ks' : Etcd.Keyspace) :
    (∀ e sent x, Course (ks.adapter e .acquire) sent (some x) → Consul.Refused sent →
      ∃ owner, x = (e.token, .acquire (.ok (.occupied owner)))) ∧
    (∀ e sent x, Course (ks'.adapter e .acquire) sent (some x) → Etcd.Refused sent →
      ((∃ owner, x = (e.token, .acquire (.ok (.occupied owner)))) ↔
        ∃ lease, Etcd.HearsGone sent lease) ∧
      ((¬∃ lease, Etcd.HearsGone sent lease) →
        ∃ report, x = (e.token, .acquire (.error (.unavailable report))))) ∧
    ∀ (l : Locker) (n : Nat) (verb : Verb) (began since now : Instant) (draw : Nat),
      l.caller? n = some ⟨verb, began, .calling since⟩ →
      (verb = .lock → ∀ owner, ∃ l',
        l.answer now (.caller n) (.acquire (.ok (.occupied owner))) draw =
          some (l', [.returned n (.error (.contended l.options.name owner))])) ∧
      (∀ limit, verb = .acquire limit → (∀ d, limit = some d → now - began < d.nanos) →
        ∀ owner, ∃ l' til,
          l.answer now (.caller n) (.acquire (.ok (.occupied owner))) draw = some (l', []) ∧
            l'.caller? n = some ⟨verb, began, .napping til⟩) ∧
      (∀ d, verb = .acquire (some d) → d.nanos ≤ now - began → ∀ owner, ∃ l',
        l.answer now (.caller n) (.acquire (.ok (.occupied owner))) draw =
          some (l', [.returned n (.error (.timedOut d))])) ∧
      (verb.op = some .acquire → ∀ report, ∃ l',
        l.answer now (.caller n) (.acquire (.error (.unavailable report))) draw =
          some (l', [.returned n (.error (.unavailable report))])) := by
  refine ⟨fun e sent x => Consul.occupied_of_refused, ?_, ?_⟩
  · intro e sent x h hr
    rcases Etcd.occupied_or_unavailable_of_refused h hr with ⟨hg, owner, rfl⟩ | ⟨hn, report, rfl⟩
    · exact ⟨iff_of_true ⟨owner, rfl⟩ hg, fun hn => absurd hg hn⟩
    · refine ⟨iff_of_false ?_ hn, fun _ => ⟨report, rfl⟩⟩
      rintro ⟨owner, hx⟩
      cases hx
  · intro l n verb began since now draw hc
    refine ⟨?_, ?_, ?_, fun hv report => Locker.returns_unavailable hc hv report⟩
    · rintro rfl owner
      exact Locker.lock_returns_contended hc owner
    · rintro limit rfl hlimit owner
      exact Locker.acquire_naps hc hlimit owner
    · rintro d rfl hlimit owner
      exact Locker.acquire_times_out hc hlimit owner

/-- What an attempt needs to know that is the first of its adapter. -/
def firstErrand (τ : Type) : Errand τ :=
  ⟨{ owner := "a", name := "job" }, { owner := "a", name := "job" }, none, 0, 0⟩

/-- A first attempt to take the key of a lock at an agent. -/
def firstAttempt : Talk Consul.Question Http.Reply (Option String × Answer) :=
  (Consul.Keyspace.mk ⟨"", none⟩ "").adapter (firstErrand String) .acquire

/-- The replies of an agent that creates a session, refuses the key, and then is down. -/
def refusedThenDown : List Http.Reply :=
  [.response 200 "[\"s\"]", .response 200 "false", .failure "down", .failure "down"]

/-- What a first attempt sends and hears that is granted a lease and refused the key, and what
comes after that. -/
def leaseRefused (rest : List (Etcd.Request × Option Etcd.Reply)) :
    List (Etcd.Request × Option Etcd.Reply) :=
  (.grant (firstErrand Int).options.wholeSecs, some (.lease 7 10)) ::
    (.create "job" "a" 7, some (.outcome false [])) :: rest

theorem refused_leaseRefused (rest : List (Etcd.Request × Option Etcd.Reply)) :
    Etcd.Refused (leaseRefused rest) := ⟨"job", "a", 7, [], by simp [leaseRefused]⟩

/-- A refused attempt with a session reports contention though nothing else gets through; with a
lease it does so if the lease is revoked. A caller without a limit naps. -/
theorem occupied_iff_lease_gone_down :
    (∃ sent owner, Course firstAttempt sent (some (none, .acquire (.ok (.occupied owner)))) ∧
      Consul.Refused sent) ∧
    (∃ owner, Course (Etcd.Keyspace.adapter {} (firstErrand Int) .acquire)
      (leaseRefused [(.revoke 7, some .revoked)])
      (some (none, .acquire (.ok (.occupied owner))))) ∧
    ∃ (l l' : Locker) (til : Instant), l.caller? 0 = some ⟨.acquire none, 0, .calling 0⟩ ∧
      l.answer 5 (.caller 0) (.acquire (.ok (.occupied none))) 0 = some (l', []) ∧
      l'.caller? 0 = some ⟨.acquire none, 0, .napping til⟩ := by
  obtain ⟨sessions, leases, lockers⟩ :=
    occupied_iff_lease_gone (Consul.Keyspace.mk ⟨"", none⟩ "") {}
  refine ⟨?_, ?_, ?_⟩
  · have course := Talk.course_courseOf firstAttempt refusedThenDown
    have refused : Consul.Refused (firstAttempt.courseOf refusedThenDown).1 :=
      ⟨"job", "s", "a", .response 200 "false", by decide +kernel, by decide +kernel⟩
    have complete : (firstAttempt.courseOf refusedThenDown).2.isSome = true := by decide +kernel
    obtain ⟨x, hx⟩ := Option.isSome_iff_exists.1 complete
    rw [hx] at course
    obtain ⟨owner, rfl⟩ := sessions _ _ _ course refused
    exact ⟨_, owner, course, refused⟩
  · have course : Course (Etcd.Keyspace.adapter {} (firstErrand Int) .acquire)
        (leaseRefused [(.revoke 7, some .revoked)]) (some _) := .heard (.heard (.heard .done))
    have gone : Etcd.HearsGone (leaseRefused [(.revoke 7, some .revoked)]) 7 :=
      ⟨.revoked, by simp [leaseRefused], .revoked⟩
    obtain ⟨owner, hx⟩ := (leases _ _ _ course (refused_leaseRefused _)).1.2 ⟨7, gone⟩
    rw [hx] at course
    exact ⟨owner, course⟩
  · let l : Locker :=
      { options := { owner := "a" }, callers := [(0, ⟨.acquire none, 0, .calling 0⟩)] }
    obtain ⟨l', til, hanswer, hnaps⟩ := (lockers l 0 _ 0 0 5 0 rfl).2.1 none rfl nofun none
    exact ⟨l, l', til, rfl, hanswer, hnaps⟩

/-- **A refusal can go unreported**: a caller that would wait for ever is told that the server is
out of reach, since its lease could not be revoked. -/
theorem unavailable_of_refused :
    (∃ x, Course (Etcd.Keyspace.adapter {} (firstErrand Int) .acquire)
      (leaseRefused [(.revoke 7, some .closed), (.revoke 7, none)]) (some x) ∧
      Etcd.Refused (leaseRefused [(.revoke 7, some .closed), (.revoke 7, none)]) ∧
      ∀ owner, x.2 ≠ .acquire (.ok (.occupied owner))) ∧
    ∃ w w' : World (Remote (Prompter Etcd.Request Etcd.Reply) Etcd.Request Etcd.Reply Int),
      World.step { service := Etcd.failing } (.create { owner := "a" }) = some (w, []) ∧
        w.step (.locker 0 (.call 0 (.acquire none)) 0) =
          some (w', [.returned 0 (.error (.unavailable "down"))]) := by
  refine ⟨⟨_, .heard (.heard (.heard (.told .done))), refused_leaseRefused _, nofun⟩, ?_⟩
  exact ⟨_, _, rfl, rfl⟩

end LeaseLock
