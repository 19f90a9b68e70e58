import LeaseLock.Proofs.Etcd.Dialogues
import LeaseLock.Proofs.Etcd.Store

/-!
# One lease to a key

**The clients.** Any number of them keep locks as keys of one store, and their requests reach it in
any order, also those of attempts that were given up. Leases run out at any time.

**Whose a lease is** (`leases`). A lease is granted once, to an operation of one client. An
operation that makes a key does so with a lease of its own, and what it revokes is a lease of its
own, or that of its client's acquisition (`endedBy_of_handled`).

Main result: `exclusive_key`.
-/

namespace LeaseLock.Etcd

open Network Network.Traffic

abbrev Exchange := Network.Exchange Store Request Reply Int

abbrev Entry := Network.Entry Store Request Reply Int

abbrev Traffic := Network.Traffic Store Request Reply Int

/-- Clients that keep their locks in a keyspace. -/
def clients (ks : Keyspace) (own : Nat → Options) (home : Nat) : Client Request Reply Int :=
  ⟨own home, ks.adapter⟩

variable {ks : Keyspace} {own : Nat → Options} {s s' : Store} {t : Traffic} {x : Exchange}
  {xs : List Exchange} {lease : Int} {log : List Entry} {c : Commission Int}
  {past : List (Request × Reply)}

/-! ## The server -/

theorem served_inOrder (h : s.InOrder) (hs : Served s s' xs) : s'.InOrder :=
  hs.keeps h (fun h hx => Store.inOrder_of_change h (Store.change_of_serve hx))
    (fun h he => (Store.eq_closed_of_expire he).2 ▸ h.closed _)

theorem change_of_handled (run : Run (clients ks own) s t) (hx : .handled x ∈ t.log) :
    Store.Change x.before x.question x.after x.reply := by
  obtain ⟨_, -, -, _, hserve⟩ := run.exists_served hx
  exact Store.change_of_serve hserve

/-- The leases that the server grants. -/
def leases : Register Store Int where
  gives := granted?
  used s lease := s.life lease ≠ .unborn
  isFault {q a lease} h := by
    obtain ⟨secs, ttl, rfl, rfl⟩ := granted?_eq_some.1 h
    rfl
  fresh {s s' q a choice lease} hs h := by
    obtain ⟨secs, ttl, hq, ha⟩ := granted?_eq_some.1 h
    obtain ⟨hl, rfl⟩ := (Store.change_of_serve hs).of_lease hq ha
    exact ⟨not_not.2 hl, by simp⟩
  serve hs := (Store.leads_of_change (Store.change_of_serve hs) _).ne_unborn
  pass hp := (Store.leads_of_expire hp _).ne_unborn

theorem leases_minds (ks : Keyspace) : leases.Minds (rule ks) := by
  intro c past lease answer h hnew
  have ha : answer = .acquire (.ok .granted) := hnew.elim (Ends.granted_of_new h rfl) id
  obtain ⟨_, _, heq, ho, -⟩ := Ends.of_granted h ha
  cases heq
  exact ho

/-! ## Operations and their leases -/

/-- Whatever revokes a lease may do so. -/
theorem endedBy_of_handled (ho : Orderly (rule ks) log) (hx : .handled x ∈ log)
    (hq : x.question = .revoke lease) : leases.EndedBy log x.commission lease := by
  obtain ⟨hrec, hmay⟩ := ho.handled hx
  have hmay : May ks x.commission x.past (.revoke lease) := hq ▸ hmay
  cases hmay with
  | giveBack h => exact .self (Register.givenTo_of_heard h hrec)
  | revoke hop ht => exact Register.endedBy_of_token (leases_minds ks) ho hrec.began hop ht

/-- **An attempt that was granted** has made the key with its own lease. -/
theorem exists_created_of_ended (run : Run (clients ks own) s t) {token : Option Int}
    (he : .ended c past (token, .acquire (.ok .granted)) ∈ t.log) :
    ∃ lease x, token = some lease ∧ leases.GivenTo t.log c lease ∧ .handled x ∈ t.log ∧
      x.commission = c ∧
      x.question = .create (ks.key (own c.home).name) c.errand.options.owner lease ∧
      (∀ b ∈ x.before.bindings, b.key ≠ ks.key (own c.home).name) ∧
      x.after = x.before.bound ⟨ks.key (own c.home).name, c.errand.options.owner, lease⟩ := by
  obtain ⟨hrec, hends⟩ := (run.sound (rule_binds ks own)).log.ended he
  have hown : c.errand.own = own c.home := run.own_of_began hrec.began
  obtain ⟨lease, effects, htoken, ho, hm⟩ := Ends.of_granted hends rfl
  rw [hown] at hm
  obtain ⟨x, hx, hc, hq, hr⟩ := (hrec.heard _ _ hm).resolve_left nofun
  obtain ⟨hfree, -, hafter⟩ := (change_of_handled run hx).of_created hq hr
  exact ⟨lease, x, htoken, Register.givenTo_of_heard ho hrec, hx, hc, hq, hfree, hafter⟩

/-- **One live lease to a key**, however the requests of all clients and the ends of leases are
interleaved. Every key is bound to one live lease. A client that was granted the lock has stored the
lease with which its own transaction made the key, and no two clients store one lease. A key goes by
a request only if the request revokes its lease, and this is a lease that was granted to the same
operation, or the one that the releasing client had acquired: never another client's. -/
theorem exclusive_key (h : s.InOrder) (run : Run (clients ks own) s t) :
    (∀ b ∈ t.server.bindings, t.server.life b.lease = .alive ∧
      ∀ b' ∈ t.server.bindings, b'.key = b.key → b' = b) ∧
    (∀ i j lease, t.HasHeld i lease → t.HasHeld j lease → i = j) ∧
    (∀ c past token, .ended c past (token, .acquire (.ok .granted)) ∈ t.log →
      ∃ lease x, token = some lease ∧ leases.GivenTo t.log c lease ∧ .handled x ∈ t.log ∧
        x.commission = c ∧
        x.question = .create (ks.key (own c.home).name) c.errand.options.owner lease ∧
        (∀ b ∈ x.before.bindings, b.key ≠ ks.key (own c.home).name) ∧
        x.after = x.before.bound ⟨ks.key (own c.home).name, c.errand.options.owner, lease⟩) ∧
    (∀ c past token older, t.log = .ended c past (token, .acquire (.ok .granted)) :: older →
      t.tokens c.home = token) ∧
    ∀ y b, .handled y ∈ t.log → b ∈ y.before.bindings → b ∉ y.after.bindings →
      y.question = .revoke b.lease ∧ leases.EndedBy t.log y.commission b.lease ∧
      ∀ c, leases.GivenTo t.log c b.lease → c.home = y.commission.home := by
  have sound := run.sound (rule_binds ks own)
  have home_eq : ∀ {i j lease}, t.HasHeld i lease → t.HasHeld j lease → i = j :=
    fun hi hj => Register.home_eq_of_hasHeld (leases_minds ks) (rule_binds ks own) run hi hj
  refine ⟨?_, fun i j lease => home_eq, fun c past token => exists_created_of_ended run, ?_, ?_⟩
  · have hs := served_inOrder h run.served
    exact fun b hb => ⟨hs.alive b hb, fun b' hb' => List.inj_on_of_nodup_map hs.nodup hb' hb⟩
  · intro c past token older hlog
    obtain ⟨lease, _, rfl, -⟩ := exists_created_of_ended run (hlog ▸ List.mem_cons_self)
    exact run.tokens_of_granted hlog
  · intro y b hy hb hgone
    have hq := (Store.mem_of_change (change_of_handled run hy) hb).resolve_left hgone
    have hended := endedBy_of_handled sound.log hy hq
    exact ⟨hq, hended, fun c hc => hended.home_eq hc run⟩

/-- What a client of this owner calls its lock. -/
def jobOf (owner : String) : Options := { name := "job", owner }

/-- What client 0 has made of the key. -/
def jobKey : Binding := ⟨"job", "a", 7⟩

/-- Client 1 gives its attempt up once its lease is granted. Client 0 acquires the lock. Then the
revocation arrives, and after it the transaction of the attempt that was given up. -/
def lateRequests : List (Move Reply Int Int) :=
  [.begin 1 (jobOf "b") .acquire, .reach 0 8, .hear 0, .giveUp 0,
    .begin 0 (jobOf "a") .acquire, .reach 0 7, .hear 0, .reach 0 0, .hear 0, .finish 0,
    .arrive 1 0, .arrive 0 0]

/-- Client 0 has the lock when the revocation by client 1 is handled. -/
def isContested (t : Traffic) : Bool :=
  t.tokens 0 = some 7 && (exchanges t.log).any fun y =>
    y.commission.home = 1 && y.question = .revoke 8 && jobKey ∈ y.before.bindings

theorem empty_inOrder : Store.InOrder {} := ⟨List.nodup_nil, List.forall_mem_nil _⟩

theorem exclusive_key_lateRequests :
    ∃ (t : Traffic) (y : Exchange), Run (clients {} fun _ => jobOf "a") {} t ∧
      t.tokens 0 = some 7 ∧ .handled y ∈ t.log ∧ y.commission.home = 1 ∧
      y.question = .revoke 8 ∧ jobKey ∈ y.before.bindings ∧ jobKey ∈ y.after.bindings := by
  obtain ⟨t, run, hp⟩ : ∃ t, Run (clients {} fun _ => jobOf "a") {} t ∧ isContested t = true :=
    exists_run lateRequests (by decide +kernel)
  simp only [isContested, Bool.and_eq_true, decide_eq_true_iff, List.any_eq_true, mem_exchanges]
    at hp
  obtain ⟨htoken, y, hy, ⟨hhome, hq⟩, hb⟩ := hp
  obtain ⟨-, -, -, -, gone⟩ := exclusive_key empty_inOrder run
  refine ⟨t, y, run, htoken, hy, hhome, hq, hb, by_contra fun hgone => ?_⟩
  cases hq.symm.trans (gone y jobKey hy hb hgone).1

end LeaseLock.Etcd
