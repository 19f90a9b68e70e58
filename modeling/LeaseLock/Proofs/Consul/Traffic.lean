import LeaseLock.Proofs.Consul.Dialogues

/-!
# One session to a key

**The clients.** Any number of them keep locks as keys of one store, and their requests reach it in
any order, also those of attempts that were given up. Sessions run out at any time.

**Whose a session is** (`sessions`). A session is created once, by an operation of one client.

**Deletions** (`Deletes`). A key is deleted as it was read. So the session that holds it then is the
one that the release has read, which is its own (`Deletes.by_holder`).

Main result: `exclusive_session`.
-/

namespace LeaseLock.Consul

open Network Network.Traffic

abbrev Exchange := Network.Exchange Store Question Http.Reply String

abbrev Log := List (Network.Entry Store Question Http.Reply String)

abbrev Traffic := Network.Traffic Store Question Http.Reply String

/-- Clients that keep their locks in a keyspace. -/
def clients (ks : Keyspace) (own : Nat → Options) (home : Nat) :
    Network.Client Question Http.Reply String :=
  ⟨own home, ks.adapter⟩

/-- The request deletes the key from the session that holds it. -/
def Deletes (y : Exchange) (key session : String) : Prop :=
  ∃ slot, y.before.slots key = some slot ∧ slot.session = some session ∧
    y.question = .deleteAt key slot.index

variable {ks : Keyspace} {own : Nat → Options} {s s' : Store} {t : Traffic} {x y : Exchange}
  {xs : List Exchange} {key session : String} {slot : Slot} {log newer earlier : Log}
  {c : Commission String} {past : List (Question × Http.Reply)} {token : Option String}

/-! ## The server -/

theorem served_inOrder (h : s.InOrder) (hs : Served s s' xs) : s'.InOrder :=
  hs.keeps h (fun h hx => Store.inOrder_of_change h (Store.change_of_serve hx))
    (fun h he => Store.inOrder_of_happen h he)

theorem since_of_served (h : s.Since key slot) (hs : Served s s' xs) : s'.Since key slot :=
  hs.keeps (P := (·.Since key slot)) h (fun h hx => h.change (Store.change_of_serve hx))
    (fun h he => h.happen he)

theorem change_of_handled (run : Run (clients ks own) s t) (hx : .handled x ∈ t.log) :
    Store.Change x.before x.question x.after x.reply := by
  obtain ⟨_, -, -, _, hserve⟩ := run.exists_served hx
  exact Store.change_of_serve hserve

/-- **A session that lives on keeps its keys**, unless they are deleted. -/
theorem holder_of_served (h : s.InOrder) (hh : s.holder key = some session)
    (hs : Served s s' xs) : s'.life session ≠ .unborn ∧ (s'.life session = .alive →
      s'.holder key = some session ∨ ∃ y ∈ xs, Deletes y key session) := by
  induction hs with
  | start => exact ⟨by simp [h.alive key session hh], fun _ => .inl hh⟩
  | handled _ hx ih =>
    obtain ⟨hborn, ih⟩ := ih
    have hc := Store.change_of_serve hx
    have hleads := Store.leads_of_change hc session
    refine ⟨hleads.ne_unborn hborn, fun hl => ?_⟩
    rcases ih (hleads.alive hborn hl) with hheld | ⟨y, hy, hd⟩
    · rcases Store.holder_of_change hc hheld with hheld | ⟨-, hdead⟩ | hd
      · exact .inl hheld
      · cases hl.symm.trans hdead
      · exact .inr ⟨_, List.mem_cons_self, hd⟩
    · exact .inr ⟨y, List.mem_cons_of_mem _ hy, hd⟩
  | passed _ hp ih =>
    obtain ⟨hborn, ih⟩ := ih
    have hleads := Store.leads_of_happen hp session
    refine ⟨hleads.ne_unborn hborn, fun hl => ?_⟩
    exact (ih (hleads.alive hborn hl)).imp_left fun hheld => Store.holder_of_happen hp hheld hl

/-- The sessions that the server creates. -/
def sessions : Register Store String where
  gives := opened?
  used s session := s.life session ≠ .unborn
  isFault h := by
    obtain ⟨_, _, -, hr⟩ := opened?_eq_some.1 h
    obtain ⟨body, hbody, -⟩ := exists_content hr
    exact isFault_of_content hbody
  fresh hs h := by
    obtain ⟨name, ttl, hq, hr⟩ := opened?_eq_some.1 h
    obtain ⟨hl, rfl⟩ := (Store.change_of_serve hs).of_session hq hr
    exact ⟨not_not.2 hl, by simp⟩
  serve hs := (Store.leads_of_change (Store.change_of_serve hs) _).ne_unborn
  pass hp := (Store.leads_of_happen hp _).ne_unborn

theorem sessions_minds (ks : Keyspace) : sessions.Minds (rule ks) := by
  intro c past session answer h hnew
  have ha : answer = .acquire (.ok .granted) := hnew.elim (Ends.granted_of_new h rfl) id
  obtain ⟨_, _, heq, ho, -⟩ := Ends.of_granted h ha
  cases heq
  exact ho

/-! ## Operations and their sessions -/

/-- **Only a release deletes a key**, and only from the session of its acquisition. -/
theorem Deletes.by_holder (hd : Deletes y key session) (h : s.InOrder)
    (run : Run (clients ks own) s t) (hlog : t.log = newer ++ .handled y :: earlier) :
    y.commission.op = .release ∧ y.commission.errand.token = some session ∧
      .began y.commission ∈ earlier := by
  have sound := run.sound (rule_binds ks own)
  obtain ⟨slot, hslot, hsession, hq⟩ := hd
  have hproper := sound.log
  rw [hlog] at hproper
  cases hproper.proper with
  | handled hrec hmay =>
    obtain ⟨hop, session', r, e, ht, hm, he, hs, hindex⟩ := May.of_deleteAt hmay hq
    obtain ⟨body, hbody, -⟩ := exists_content he
    obtain ⟨w, hw, -, hwq, rfl⟩ := (hrec.heard _ _ hm).resolve_left
      (by simp [Host.isFault, isFault_of_content hbody])
    have hwlog : .handled w ∈ t.log := by simp [hlog, hw]
    obtain ⟨hafter, hread⟩ := (change_of_handled run hwlog).of_entry hwq he
    obtain ⟨_, -, hbefore, -⟩ := run.exists_served hwlog
    obtain ⟨_, -, hserved⟩ := run.served_between hlog hw
    rw [hafter] at hserved
    have hsince := since_of_served ((served_inOrder h hbefore).since hread) hserved
    have heq := hsince.eq slot hslot hindex.symm
    rw [heq, hs] at hsession
    exact ⟨hop, ht.trans hsession, hrec.began⟩

theorem endedBy_of_handled (h : s.InOrder) (run : Run (clients ks own) s t)
    (hy : .handled y ∈ t.log) (hheld : y.before.holder key = some session)
    (hgone : y.after.holder key ≠ some session) : sessions.EndedBy t.log y.commission session := by
  have sound := run.sound (rule_binds ks own)
  obtain ⟨hrec, hmay⟩ := sound.log.handled hy
  rcases Store.holder_of_change (change_of_handled run hy) hheld with hh | ⟨hq, -⟩ | hd
  · exact absurd hh hgone
  · rcases May.of_closeSession hmay hq with ho | ⟨hop, ht⟩
    · exact .self (Register.givenTo_of_heard ho hrec)
    · exact Register.endedBy_of_token (sessions_minds ks) sound.log hrec.began hop ht
  · obtain ⟨newer, earlier, hlog⟩ := List.append_of_mem hy
    obtain ⟨hop, ht, -⟩ := Deletes.by_holder hd h run hlog
    exact Register.endedBy_of_token (sessions_minds ks) sound.log hrec.began hop ht

/-- An attempt that was granted has taken the key for its session. -/
theorem exists_taken_of_ended (run : Run (clients ks own) s t) {answer : Answer}
    (hlog : t.log = newer ++ .ended c past (some session, answer) :: earlier)
    (ha : answer = .acquire (.ok .granted)) :
    ∃ x, .handled x ∈ earlier ∧ x.after.holder (ks.key (own c.home).name) = some session := by
  have hproper := (run.sound (rule_binds ks own)).log
  rw [hlog] at hproper
  cases hproper.proper with
  | ended hrec hends =>
    obtain ⟨_, r, heq, -, hm, hflag⟩ := Ends.of_granted hends ha
    cases heq
    obtain ⟨body, hbody, -⟩ := exists_content hflag
    obtain ⟨x, hx, -, hq, rfl⟩ := (hrec.heard _ _ hm).resolve_left
      (by simp [Host.isFault, isFault_of_content hbody])
    have hown : c.errand.own = own c.home := run.own_of_began (by simp [hlog, hrec.began])
    rw [hown] at hq
    exact ⟨x, hx, (change_of_handled run (by simp [hlog, hx])).of_taken hq hflag⟩

/-- A session that is alive when a request is handled, and was the key's before, still is, unless a
release has deleted the key. -/
theorem holder_or_released (h : s.InOrder) (run : Run (clients ks own) s t)
    (hlog : t.log = newer ++ .handled y :: earlier) (hx : .handled x ∈ earlier)
    (hheld : x.after.holder key = some session) (hlive : y.before.life session = .alive) :
    y.before.holder key = some session ∨
      ∃ c, .began c ∈ earlier ∧ c.op = .release ∧ c.errand.token = some session := by
  have hxlog : .handled x ∈ t.log := by simp [hlog, hx]
  obtain ⟨_, -, hbefore, -⟩ := run.exists_served hxlog
  have hafter := Store.inOrder_of_change (served_inOrder h hbefore) (change_of_handled run hxlog)
  obtain ⟨zs, hzs, hserved⟩ := run.served_between hlog hx
  refine ((holder_of_served hafter hheld hserved).2 hlive).imp_right ?_
  rintro ⟨z, hz, hd⟩
  obtain ⟨between, older, rfl⟩ := List.append_of_mem (mem_exchanges.1 (hzs hz))
  rw [← List.cons_append, ← List.append_assoc] at hlog
  obtain ⟨hop, ht, hb⟩ := Deletes.by_holder hd h run hlog
  exact ⟨z.commission, by simp [hb], hop, ht⟩

/-- The session with which a request's client began was acquired before, and only operations that
began since then began with it. -/
theorem exists_acquired_of_token (run : Run (clients ks own) s t)
    (hlog : t.log = newer ++ .handled y :: earlier)
    (ht : y.commission.errand.token = some session) :
    ∃ between c past older,
      earlier = between ++ .ended c past (some session, .acquire (.ok .granted)) :: older ∧
      c.home = y.commission.home ∧
      (∃ x, .handled x ∈ older ∧ x.after.holder (ks.key (own c.home).name) = some session) ∧
      ∀ c', .began c' ∈ earlier → c'.errand.token = some session →
        .began c' ∈ between ∧ c'.home = y.commission.home := by
  have order := (run.sound (rule_binds ks own)).log
  rw [hlog] at order
  cases order.proper with
  | handled hrec _ =>
    obtain ⟨between, c, past, answer, older, rfl, hhome, hnew, hfirst⟩ :=
      (order.upTo.granted hrec.began ht).first
    obtain ⟨_, hends⟩ := order.upTo.ended (List.mem_append_right _ List.mem_cons_self)
    have ha : answer = .acquire (.ok .granted) := hnew.elim (Ends.granted_of_new hends rfl) id
    subst ha
    have hlog' : t.log = (newer ++ .handled y :: between) ++
        .ended c past (some session, .acquire (.ok .granted)) :: older := by simp [hlog]
    refine ⟨between, c, past, older, rfl, hhome, exists_taken_of_ended run hlog' rfl, ?_⟩
    intro c' hb ht'
    have began_log : ∀ {c' : Commission String}, .began c' ∈ between ++
        .ended c past (some session, .acquire (.ok .granted)) :: older → .began c' ∈ t.log :=
      fun hb => hlog ▸ List.mem_append_right _ (List.mem_cons_of_mem _ hb)
    have hsame : c'.home = y.commission.home :=
      Register.home_eq_of_hasHeld (sessions_minds ks) (rule_binds ks own) run
        (.inr ⟨c', began_log hb, rfl, ht'⟩) (.inr ⟨y.commission, began_log hrec.began, rfl, ht⟩)
    refine ⟨?_, hsame⟩
    -- the first operation that came to the session had not ended when the older ones began
    rcases List.mem_append.1 hb with hb | hb
    · exact hb
    · rcases List.mem_cons.1 hb with heq | hb
      · cases heq
      · exact absurd (hsame ▸ order.upTo.upTo.granted hb ht') hfirst

theorem exists_kept_of_ended (run : Run (clients ks own) s t)
    (he : .ended c past (token, .refresh (.ok ())) ∈ t.log) :
    ∃ session z, .handled z ∈ t.log ∧ z.commission = c ∧ z.question = .keepSession session ∧
      c.errand.token = some session ∧ z.before.life session = .alive := by
  obtain ⟨hrec, hends⟩ := (run.sound (rule_binds ks own)).log.ended he
  obtain ⟨session, r, body, ht, hm, hbody⟩ := Ends.of_kept hends rfl
  obtain ⟨z, hz, hc, hq, rfl⟩ := (hrec.heard _ _ hm).resolve_left
    (by simp [Host.isFault, isFault_of_content hbody])
  exact ⟨session, z, hz, hc, hq, ht,
    (change_of_handled run hz).of_kept hq (isNotFound_of_content hbody)⟩

/-- **A refresh that went well** has renewed the session with which its client was granted the lock.
If no release of that session has begun since, the session holds the key. -/
theorem exists_renewed_of_ended (h : s.InOrder) (run : Run (clients ks own) s t)
    (he : .ended c past (token, .refresh (.ok ())) ∈ t.log) :
    ∃ session newer z between c₀ past₀ older,
      t.log = newer ++ .handled z ::
        (between ++ .ended c₀ past₀ (some session, .acquire (.ok .granted)) :: older) ∧
      c₀.home = c.home ∧ z.commission = c ∧ z.question = .keepSession session ∧
      c.errand.token = some session ∧ z.before.life session = .alive ∧
      ((∀ c', .began c' ∈ between → c'.op = .release → c'.home = c.home →
        c'.errand.token ≠ some session) →
        z.before.holder (ks.key (own c.home).name) = some session) := by
  obtain ⟨session, z, hz, rfl, hq, ht, hlive⟩ := exists_kept_of_ended run he
  obtain ⟨newer, earlier, hlog⟩ := List.append_of_mem hz
  obtain ⟨between, c₀, past₀, older, rfl, hhome, ⟨x, hx, hheld⟩, hbetween⟩ :=
    exists_acquired_of_token run hlog ht
  refine ⟨session, newer, z, between, c₀, past₀, older, hlog, hhome, rfl, hq, ht, hlive,
    fun hnone => ?_⟩
  rw [hhome] at hheld
  refine (holder_or_released h run hlog (by simp [hx]) hheld hlive).resolve_right ?_
  rintro ⟨c', hb, hop, ht'⟩
  obtain ⟨hb, hsame⟩ := hbetween c' hb ht'
  exact hnone c' hb hop hsame ht'

/-- **One session to a key**, however the requests of all clients and the ends of sessions are
interleaved. Keys are held by live sessions, and no two clients store one session: so at most one
of them stores the session that holds a key. A refresh that went well has renewed the session with
which its client was granted the lock, and this session holds the key when the request is handled,
if no release of it has begun since. A key is taken from a session only by an operation that
the session was given to, or by a release of the client that had acquired it: never by another
client. -/
theorem exclusive_session (h : s.InOrder) (run : Run (clients ks own) s t) :
    (∀ key session, t.server.holder key = some session →
      t.server.life session = .alive ∧
      ∀ i j, t.tokens i = some session → t.tokens j = some session → i = j) ∧
    (∀ i j session, t.HasHeld i session → t.HasHeld j session → i = j) ∧
    (∀ c past token, .ended c past (token, .refresh (.ok ())) ∈ t.log →
      ∃ session newer z between c₀ past₀ older,
        t.log = newer ++ .handled z ::
          (between ++ .ended c₀ past₀ (some session, .acquire (.ok .granted)) :: older) ∧
        c₀.home = c.home ∧ z.commission = c ∧ z.question = .keepSession session ∧
        c.errand.token = some session ∧ z.before.life session = .alive ∧
        ((∀ c', .began c' ∈ between → c'.op = .release → c'.home = c.home →
          c'.errand.token ≠ some session) →
          z.before.holder (ks.key (own c.home).name) = some session)) ∧
    ∀ y key session, .handled y ∈ t.log → y.before.holder key = some session →
      y.after.holder key ≠ some session → sessions.EndedBy t.log y.commission session ∧
      ∀ c, sessions.GivenTo t.log c session → c.home = y.commission.home := by
  have home_eq : ∀ {i j session}, t.HasHeld i session → t.HasHeld j session → i = j :=
    fun hi hj => Register.home_eq_of_hasHeld (sessions_minds ks) (rule_binds ks own) run hi hj
  refine ⟨?_, fun i j session => home_eq, fun c past token => exists_renewed_of_ended h run, ?_⟩
  · intro key session hh
    exact ⟨(served_inOrder h run.served).alive key session hh,
      fun i j hi hj => home_eq (.inl hi) (.inl hj)⟩
  · intro y key session hy hheld hgone
    have hended := endedBy_of_handled h run hy hheld hgone
    exact ⟨hended, fun c hc => hended.home_eq hc run⟩

/-- What a client of this owner calls its lock. -/
def jobOf (owner : String) : Options := { name := "job", owner }

/-- A response of an agent. -/
def response (body : String) : Http.Reply := .response 200 body

/-- The release of client 0 reads that its session holds the key. The session runs out, client 1
takes the key, and then the deletion arrives. -/
def overtaken : List (Move Http.Reply Http.Reply Event) :=
  [.begin 0 (jobOf "a") .acquire, .reach 0 (response "[\"s\"]"), .hear 0,
    .reach 0 (response "true"), .hear 0, .finish 0,
    .begin 0 (jobOf "a") .release, .reach 0 (response "[[\"job\",\"YQ==\",\"s\",1]]"), .hear 0,
    .pass (.expire "s"),
    .begin 1 (jobOf "b") .acquire, .reach 1 (response "[\"t\"]"), .hear 1,
    .reach 1 (response "true"), .hear 1, .finish 1,
    .reach 0 (response "false")]

/-- Client 1 holds the key when the deletion by client 0 is handled. -/
def isOvertaken (t : Traffic) : Bool :=
  ((exchanges t.log).any fun x => x.commission.home = 1 && opened? x.question x.reply = some "t") &&
  (exchanges t.log).any fun y => y.commission.home = 0 && y.question = .deleteAt "job" 1 &&
    y.before.holder "job" = some "t"

theorem empty_inOrder : Store.InOrder {} := ⟨nofun, nofun⟩

theorem exclusive_session_overtaken :
    ∃ (t : Traffic) (y : Exchange), Run (clients ⟨⟨"", none⟩, ""⟩ fun _ => jobOf "a") {} t ∧
      .handled y ∈ t.log ∧ y.commission.home = 0 ∧ y.question = .deleteAt "job" 1 ∧
      y.before.holder "job" = some "t" ∧ y.after.holder "job" = some "t" := by
  obtain ⟨t, run, hp⟩ : ∃ t, Run (clients ⟨⟨"", none⟩, ""⟩ fun _ => jobOf "a") {} t ∧
    isOvertaken t = true := exists_run overtaken (by decide +kernel)
  simp only [isOvertaken, Bool.and_eq_true, decide_eq_true_iff, List.any_eq_true, mem_exchanges]
    at hp
  obtain ⟨⟨x, hx, hx1, hxt⟩, y, hy, ⟨hy0, hq⟩, hheld⟩ := hp
  refine ⟨t, y, run, hy, hy0, hq, hheld, by_contra fun hgone => ?_⟩
  obtain ⟨-, -, -, kept⟩ := exclusive_session empty_inOrder run
  have hhome := (kept y "job" "t" hy hheld hgone).2 x.commission ⟨x, hx, rfl, hxt⟩
  rw [hx1, hy0] at hhome
  cases hhome

end LeaseLock.Consul
