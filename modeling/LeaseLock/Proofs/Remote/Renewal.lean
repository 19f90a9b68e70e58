import LeaseLock.Proofs.Locker.Renewal
import LeaseLock.Proofs.Remote.Tokens
import LeaseLock.Proofs.World.Homes

/-!
# How renewal ends with sessions and leases

**The invariant** (`Watched`). While a held locker is being renewed, its adapter has lost the
token exactly if a caller was warned of the loss. When the loop has ended, either the lock counts
as lost, or the locker is forsaken: the tick after the warning found no token, and the loop ended
without a word.

Main result: `lost_iff_not_forsaken`, for lockers of both kinds.
-/

namespace LeaseLock

open Locker (Event Effect History Heard Drift warned forsaken warned_cons forsaken_cons
  warned_cons_of_not_isAnswer forsaken_cons_of_not_isAnswer forsaken_of_not_warned)
open World (Move Kept Prompt Chronicle)

/-! ## Watched lockers -/

section Watched

variable {τ : Type} {token token' : Option τ} {l l' : Locker} {h : History} {now : Instant}
  {e : Event} {fx : List Effect} {p : Party} {op : Op} {a : Answer} {draw : Nat}

/-- The token, the locker and its history agree on the renewal. -/
inductive Watched (token : Option τ) (l : Locker) (h : History) : Prop
  | dropped : l.dropped = true → Watched token l h
  | released : l.phase = .released → Watched token l h
  | idle : l.phase = .idle → warned h = false → Watched token l h
  | renewing : l.phase = .held → l.ticker ≠ none → l.health.isLost = false →
      forsaken h = false → (warned h = true ↔ token = none) → Watched token l h
  | lost : l.phase = .held → l.ticker = none → l.health.isLost = true → forsaken h = false →
      Watched token l h
  | silent : l.phase = .held → l.ticker = none → l.health.isLost = false → forsaken h = true →
      Watched token l h

theorem Watched.drift (hw : Watched token l h) (d : Drift l l')
    (hd : l.dropped = true → l'.dropped = true) (he : e.isAnswer = false) :
    Watched token l' (⟨now, e, fx⟩ :: h) := by
  have hwarn : warned (⟨now, e, fx⟩ :: h) = warned h := warned_cons_of_not_isAnswer he h
  have hfor : forsaken (⟨now, e, fx⟩ :: h) = forsaken h := forsaken_cons_of_not_isAnswer he h
  cases d with
  | gone hg => exact hg.elim .dropped .released
  | idle hp' hp =>
    cases hw with
    | dropped h => exact .dropped (hd h)
    | idle _ hn => exact .idle hp' (hwarn.trans hn)
    | released h | renewing h | lost h | silent h =>
      rw [hp] at h
      cases h
  | steady hp hh ht =>
    cases hw with
    | dropped h => exact .dropped (hd h)
    | released h => exact .released (hp.trans h)
    | idle h hn => exact .idle (hp.trans h) (hwarn.trans hn)
    | renewing h hn hl hf htk =>
      exact .renewing (hp.trans h) (fun h => hn (ht.1 h)) (by rw [hh, hl]) (hfor.trans hf)
        (by rw [hwarn, htk])
    | lost h hn hl hf =>
      exact .lost (hp.trans h) (ht.2 hn) (by rw [hh, hl]) (hfor.trans hf)
    | silent h hn hl hf =>
      exact .silent (hp.trans h) (ht.2 hn) (by rw [hh, hl]) (hfor.trans hf)
  | failed hp hn hr =>
    cases hw with
    | dropped h => exact .dropped (hd h)
    | released h => exact .released (hp.trans h)
    | idle h hw => exact .idle (hp.trans h) (hwarn.trans hw)
    | renewing h _ _ hf htk =>
      rcases hr with ⟨ht, hl⟩ | ⟨ht, hl⟩
      · exact .renewing (hp.trans h) ht hl (hfor.trans hf) (by rw [hwarn, htk])
      · exact .lost (hp.trans h) ht hl (hfor.trans hf)
    | lost _ ht | silent _ ht => exact absurd ht hn

/-- A caller's refresh changes the token exactly when it warns. -/
theorem Watched.refreshed {n : Nat} {r : Except LockError Unit} (hw : Watched token l h)
    (hc : Comes token .refresh (token', .refresh r)) (hp : l'.phase = l.phase)
    (hh : l'.health = l.health) (ht : l'.ticker = l.ticker) (hd : l'.dropped = l.dropped)
    (hheld : l.phase = .held) :
    Watched token' l' (⟨now, .answer (.caller n) (.refresh r) draw, fx⟩ :: h) := by
  have hfor : forsaken (⟨now, .answer (.caller n) (.refresh r) draw, fx⟩ :: h) = forsaken h := rfl
  cases hw with
  | dropped h => exact .dropped (hd.trans h)
  | released h | idle h =>
    rw [hheld] at h
    cases h
  | lost _ hn hl hf =>
    exact .lost (hp.trans hheld) (ht.trans hn) (by rw [hh, hl]) (hfor.trans hf)
  | silent _ hn hl hf =>
    exact .silent (hp.trans hheld) (ht.trans hn) (by rw [hh, hl]) (hfor.trans hf)
  | renewing _ hn hl hf htk =>
    refine .renewing (hp.trans hheld) (by rwa [ht]) (by rw [hh, hl]) (hfor.trans hf) ?_
    cases hc with
    | tokenless h =>
      rw [warned_cons]
      simpa [Event.warns, h] using htk
    | lost h => simp [warned_cons, Event.warns]
    | kept h hr =>
      have hnw : Event.warns (.answer (.caller n) (.refresh r) draw) = false := by
        rcases r with (_ | _ | _ | _ | loss | _) | _
        all_goals first | rfl | exact absurd rfl ((hr _ rfl).2 loss)
      rw [warned_cons, hnw, Bool.false_or, htk]

/-- A tick finds no token exactly if a caller was warned. -/
theorem Watched.ticked {t : Ticker} {r : Except LockError Unit} (hw : Watched token l h)
    (hc : Comes token .refresh (token', .refresh r)) (ht : l.ticker = some t)
    (hheld : l.phase = .held) :
    Watched token' (l.answerTicker now t r)
      (⟨now, .answer .ticker (.refresh r) draw, fx⟩ :: h) := by
  have hwarn : warned (⟨now, .answer .ticker (.refresh r) draw, fx⟩ :: h) = warned h := rfl
  have hfor : forsaken (⟨now, .answer .ticker (.refresh r) draw, fx⟩ :: h) =
      (warned h || forsaken h) := rfl
  cases hw with
  | dropped h => exact .dropped h
  | released h | idle h =>
    rw [hheld] at h
    cases h
  | lost _ hn | silent _ hn =>
    rw [ht] at hn
    cases hn
  | renewing _ _ hl hf htk =>
    rw [Locker.answerTicker_eq]
    cases hc with
    | tokenless hn =>
      -- the loop ends without a word
      exact .silent hheld rfl hl (by rw [hfor, htk.2 hn, Bool.true_or])
    | lost hn =>
      have hnw : warned h = false := Bool.eq_false_iff.2 fun hw => hn (htk.1 hw)
      exact .lost hheld rfl rfl (by rw [hfor, hnw, hf, Bool.false_or])
    | kept hn hr =>
      have hnw : warned h = false := Bool.eq_false_iff.2 fun hw => hn (htk.1 hw)
      have hf' : forsaken (⟨now, .answer .ticker (.refresh r) draw, fx⟩ :: h) = false := by
        rw [hfor, hnw, hf, Bool.false_or]
      rcases t.settle_cases l.options.lease now r with ⟨t', h', hs, hl'⟩ | ⟨h', hs, hl'⟩ | ⟨hr', -⟩
      · exact .renewing hheld (by simp [hs]) (by simpa [hs] using hl') hf' (by rw [hwarn, htk])
      · exact .lost hheld (by simp [hs]) (by simpa [hs] using hl') hf'
      · exact absurd rfl (hr _ hr').1

theorem Watched.hears (hw : Watched token l h) (hc : Comes token op (token', a))
    (hh : Heard l now p a l' fx) (hph : l.phase = op.during) :
    Watched token' l' (⟨now, .answer p a draw, fx⟩ :: h) := by
  cases hh with
  | granted =>
    cases hc with
    | granted =>
      cases hw with
      | dropped h => exact .dropped h
      | idle _ hn =>
        refine .renewing rfl (by simp [Locker.removeCaller]) rfl (forsaken_of_not_warned hn) ?_
        simp [warned_cons, Event.warns, hn]
      | released h | renewing h | lost h | silent h =>
        rw [hph] at h
        cases h
    | refused hr => exact absurd rfl hr
  | refused _ _ hr | napped _ _ hr =>
    cases hc with
    | granted => exact absurd rfl hr
    | refused _ =>
      cases hw with
      | dropped h => exact .dropped h
      | idle h hn => exact .idle h hn
      | released h | renewing h | lost h | silent h =>
        rw [hph] at h
        cases h
  | refreshed =>
    have hop := hc.op
    cases hop
    exact hw.refreshed hc rfl rfl rfl rfl hph
  | ticked ht =>
    have hop := hc.op
    cases hop
    exact hw.ticked hc ht hph
  | released | closed =>
    have hop := hc.op
    cases hop
    exact .released hph

end Watched

/-! ## Services behind a server -/

namespace Remote

variable {S Q A τ : Type} [Server S Q A] {r r' : Remote S Q A τ} {site : Site} {o : Options}
  {op : Op} {a : Answer} {ad : Adapter Q A τ} {i : Nat} {l l' : Locker} {h news : History}
  {now : Instant}

omit [Server S Q A] in
theorem token?_keep (r : Remote S Q A τ) (home : Nat) (token : Option τ) (i : Nat) :
    (r.keep home token).token? i = if i = home then token else r.token? i := by
  unfold keep token?
  cases token with
  | none => exact lookup_filter_ne i home r.tokens
  | some t =>
    simp only
    rw [lookup_cons_ite, lookup_filter_ne]
    by_cases hi : i = home
    · rw [if_pos hi, if_pos hi]
    · rw [if_neg hi, if_neg hi, if_neg hi]

/-- A call is answered as the adapter's talk ends, or never, and then the tokens stay. -/
theorem call_cases (r : Remote S Q A τ) (site : Site) (o : Options) (op : Op) :
    (∃ (e : Errand τ) (s s' : S) (token : Option τ) (a : Answer), e.token = r.token? site.home ∧
        (r.adapter e op).run s = (s', Except.ok (token, a)) ∧
        (r.call site o op).2 = .answered a ∧ (r.call site o op).1.adapter = r.adapter ∧
        ∀ i, (r.call site o op).1.token? i = if i = site.home then token else r.token? i) ∨
      (r.call site o op).2 = .silent ∧ (r.call site o op).1.adapter = r.adapter ∧
        ∀ i, (r.call site o op).1.token? i = r.token? i := by
  unfold call
  simp only
  split
  next s token a hr =>
    refine .inl ⟨_, _, _, _, _, rfl, hr, rfl, ?_, fun i => token?_keep _ _ _ i⟩
    cases token <;> rfl
  · exact .inr ⟨rfl, rfl, fun i => rfl⟩

instance : Prompt (Remote S Q A τ) where
  never_due r site o op _ _ _ hd := by
    have hd : (r.call site o op).2 = _ := hd
    rcases r.call_cases site o op with ⟨_, _, _, _, _, -, -, ha, -⟩ | ⟨ha, -⟩
    all_goals
      rw [ha] at hd
      cases hd

theorem abandon_adapter (r : Remote S Q A τ) (site : Site) :
    (r.abandon site).adapter = r.adapter := by
  unfold abandon
  split <;> rfl

theorem abandon_token? (r : Remote S Q A τ) (site : Site) (i : Nat) :
    (r.abandon site).token? i = r.token? i := by
  unfold abandon
  split <;> rfl

/-- The server has changed, and nothing else. -/
def Served (r r' : Remote S Q A τ) : Prop := ∃ server, r' = { r with server }

theorem watched_move (hT : Tokened r.adapter) (run : Locker.Run l h)
    (hw : Watched (r.token? i) l h) (m : Move i now r l r' l' news) :
    r'.adapter = r.adapter ∧ Watched (r'.token? i) l' (news ++ h) := by
  cases m with
  | moved he hs _ =>
    have hd := (Locker.stepped_of_step hs).dropped_of_dropped
    exact ⟨rfl, hw.drift (run.drift he hs) hd he⟩
  | cut he hs _ hr =>
    have hd := (Locker.stepped_of_step hs).dropped_of_dropped
    rcases hr with rfl | ⟨site, op, -, rfl⟩
    · exact ⟨rfl, hw.drift (run.drift he hs) hd he⟩
    · refine ⟨abandon_adapter r site, ?_⟩
      show Watched ((r.abandon site).token? i) _ _
      rw [abandon_token?]
      exact hw.drift (run.drift he hs) hd he
  | @asked e l' p op r' reception he hs hb hn =>
    have hd := (Locker.stepped_of_step hs).dropped_of_dropped
    have hb : r.call ⟨i, .party p, l.options⟩ l.options op = (r', reception) := hb
    rcases r.call_cases ⟨i, .party p, l.options⟩ l.options op with
      ⟨e', s, s', token, a, he', hr, ha, -⟩ | ⟨-, had, htk⟩
    · -- an answer of the right kind would have been heard
      have hop := (Talk.Ends.run (hT e' op) hr).op
      rw [hb] at ha
      obtain ⟨draw, hnone⟩ := hn a ha
      obtain ⟨-, hso, -⟩ := run.sole_of_start hs
      obtain ⟨l₂, fx, hsome⟩ := hso.exists_answer hop draw
      rw [hnone] at hsome
      cases hsome
    · rw [hb] at had htk
      refine ⟨had, ?_⟩
      rw [htk]
      exact hw.drift (run.drift he hs) hd he
  | @answered e l₁ l' p op r' a draw fx he hs hb ha =>
    have hd := (Locker.stepped_of_step hs).dropped_of_dropped
    have hb : r.call ⟨i, .party p, l.options⟩ l.options op = (r', .answered a) := hb
    rcases r.call_cases ⟨i, .party p, l.options⟩ l.options op with
      ⟨e', s, s', token, a', he', hr, ha', had, htk⟩ | ⟨hsil, -⟩
    · rw [hb] at ha' had htk
      cases ha'
      refine ⟨had, ?_⟩
      have hc := Talk.Ends.run (hT e' op) hr
      rw [he'] at hc
      rw [htk, if_pos rfl]
      obtain ⟨-, -, hph, -⟩ := run.sole_of_start hs
      exact (hw.drift (run.drift he hs) hd he).hears hc (Locker.heard_of_answer ha).2 hph
    · rw [hb] at hsil
      cases hsil

theorem watched_kept (hT : Tokened ad) :
    Kept (·.adapter = ad) (Served (S := S)) (fun _ _ => True)
      fun i _ r v h => r.adapter = ad ∧ ∀ l ∈ v, Watched (r.token? i) l h where
  start hs := ⟨hs, by simp⟩
  make hq hm := by
    refine ⟨hq.1, fun l hl => ?_⟩
    obtain rfl := Option.some.inj hl
    obtain ⟨-, rfl⟩ := Locker.make_eq_ok_iff.1 hm
    exact .idle rfl rfl
  elapse hq _ := hq
  meddle hq ho := by
    obtain ⟨server, rfl⟩ := ho
    exact hq
  move run _ hq m := by
    obtain ⟨rfl, hw⟩ := hq
    obtain ⟨had, hw⟩ := watched_move hT run (hw _ rfl) m
    refine ⟨had, fun l hl => ?_⟩
    obtain rfl := Option.some.inj hl
    exact hw
  call {i now r r' v h site op reception} hq hne _ hb := by
    have hb : r.call site site.own op = (r', reception) := hb
    have htk : r'.adapter = r.adapter ∧ r'.token? i = r.token? i := by
      rcases r.call_cases site site.own op with ⟨_, _, _, _, _, -, -, -, had, htk⟩ | ⟨-, had, htk⟩
      · rw [hb] at had htk
        exact ⟨had, (htk i).trans (if_neg (Ne.symm hne))⟩
      · rw [hb] at had htk
        exact ⟨had, htk i⟩
    rw [htk.1, htk.2]
    exact hq
  cut {i now r v h site op} hq _ := by
    show (r.abandon site).adapter = ad ∧ ∀ l ∈ v, Watched ((r.abandon site).token? i) l h
    rw [abandon_adapter, abandon_token?]
    exact hq

/-- When the renewal of a held locker has ended, the lock counts as lost, unless the locker is
forsaken. -/
theorem lost_iff_of_tokened (hT : Tokened ad) {w : World (Remote S Q A τ)} {c : Chronicle}
    (run : World.Run (·.adapter = ad) Served w c) (hl : w.lockers[i]? = some l)
    (hp : l.phase = .held) (hd : l.dropped = false) (ht : l.ticker = none) :
    (∃ cause, l.health = .lost cause) ↔ forsaken (c i) = false := by
  have isLost_iff : (∃ cause, l.health = .lost cause) ↔ l.health.isLost = true := by
    cases l.health <;> simp [Health.isLost]
  obtain ⟨-, hw⟩ := (watched_kept hT).run run (fun _ _ _ _ _ _ _ => trivial) i
  rw [isLost_iff]
  cases hw l hl with
  | dropped h =>
    rw [hd] at h
    cases h
  | released h | idle h =>
    rw [hp] at h
    cases h
  | renewing _ hn => exact absurd ht hn
  | lost _ _ hlost hf | silent _ _ hlost hf =>
    rw [hlost, hf]
    simp

end Remote

/-- **When the renewal of a held lock has ended, the lock counts as lost, unless** a tick was
answered after a caller's refresh had been told of the loss. -/
theorem lost_iff_not_forsaken {S T : Type} [Server S Consul.Question Http.Reply]
    [Server T Etcd.Request Etcd.Reply] (ks : Consul.Keyspace) (ks' : Etcd.Keyspace) :
    (∀ (w : World (Remote S Consul.Question Http.Reply String)) (c : Chronicle),
      World.Run (·.adapter = ks.adapter) Remote.Served w c → ∀ i l, w.lockers[i]? = some l →
      l.phase = .held → l.dropped = false → l.ticker = none →
      ((∃ cause, l.health = .lost cause) ↔ forsaken (c i) = false)) ∧
    ∀ (w : World (Remote T Etcd.Request Etcd.Reply Int)) (c : Chronicle),
      World.Run (·.adapter = ks'.adapter) Remote.Served w c → ∀ i l, w.lockers[i]? = some l →
      l.phase = .held → l.dropped = false → l.ticker = none →
      ((∃ cause, l.health = .lost cause) ↔ forsaken (c i) = false) :=
  ⟨fun _ _ run _ _ => Remote.lost_iff_of_tokened (Consul.tokened ks) run,
    fun _ _ run _ _ => Remote.lost_iff_of_tokened (Etcd.tokened ks') run⟩

/-- A server that grants a lease and a key, finds the lease alive once, and then finds it run out.
-/
def lapsing : Remote (Prompter Etcd.Request Etcd.Reply) Etcd.Request Etcd.Reply Int where
  server := {
    answers := [fun _ => some (.lease 7 10), fun _ => some (.outcome true []),
      fun _ => some (.lease 7 10)]
    final := .lease 7 0 }
  adapter := Etcd.Keyspace.adapter {}

/-- A locker takes the lock, and its first tick falls due. -/
def takeThenTick : List World.Act :=
  [.create { owner := "a" }, .locker 0 (.call 0 .lock) 0, .elapse 5000000000, .locker 0 .tick 0]

/-- A locker takes the lock, a caller refreshes it, and its first tick falls due. -/
def takeThenRefresh : List World.Act :=
  [.create { owner := "a" }, .locker 0 (.call 0 .lock) 0, .locker 0 (.call 1 .refresh) 0,
    .elapse 5000000000, .locker 0 .tick 0]

theorem lost_of_takeThenTick :
    ∃ (w : World (Remote (Prompter Etcd.Request Etcd.Reply) Etcd.Request Etcd.Reply Int))
      (c : Chronicle) (l : Locker),
      World.Run (·.adapter = Etcd.Keyspace.adapter {}) Remote.Served w c ∧
        w.lockers[0]? = some l ∧ l.phase = .held ∧ l.dropped = false ∧ l.ticker = none ∧
        ∃ cause, l.health = .lost cause := by
  have start : World.Run (·.adapter = Etcd.Keyspace.adapter {}) Remote.Served
      { service := lapsing } fun _ => [] := .start rfl
  have run := start.replay takeThenTick (Option.some_get rfl).symm
  have lost := (lost_iff_not_forsaken (S := Prompter Consul.Question Http.Reply)
    ⟨⟨"", none⟩, ""⟩ {}).2 _ _ run 0 _ rfl rfl rfl rfl
  exact ⟨_, _, _, run, rfl, rfl, rfl, rfl, lost.2 rfl⟩

/-- **Renewal can end without a word**: the caller alone is told of the loss. -/
theorem healthy_of_takeThenRefresh :
    ∃ (w : World (Remote (Prompter Etcd.Request Etcd.Reply) Etcd.Request Etcd.Reply Int))
      (c : Chronicle) (l : Locker),
      World.Run (·.adapter = Etcd.Keyspace.adapter {}) Remote.Served w c ∧
        w.lockers[0]? = some l ∧ l.phase = .held ∧ l.dropped = false ∧ l.ticker = none ∧
        l.health = .healthy := by
  have start : World.Run (·.adapter = Etcd.Keyspace.adapter {}) Remote.Served
      { service := lapsing } fun _ => [] := .start rfl
  have run := start.replay takeThenRefresh (Option.some_get rfl).symm
  exact ⟨_, _, _, run, rfl, rfl, rfl, rfl, rfl⟩

end LeaseLock
