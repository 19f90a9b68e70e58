import LeaseLock.Proofs.Memory.Records
import LeaseLock.Proofs.Redis.Lock

/-!
# The keys of a server and the store in memory are one lock

**The store** (`Memory.Store.keeps_answer`). A call that reaches the store, with a lease whose end
the store's clock can show, does to the live record of its name what `serve` says.

**A simulation.** A server and a store that hold the same live records (`Pair.Agree`) hold the same
ones at any later instant (`Pair.Agree.later`) and after one call (`Pair.Agree.call`), since both
do what `serve` says.

Main result: `Pair.Agree.alike_calls`, by induction over the calls: both come out alike every time,
and hold the same live records after every call. The bound on the end of a lease is needed
(`Pair.not_alike_endless`).
-/

namespace LeaseLock

open Redis (Holding Database Keyspace)

/-! ## The store in memory -/

namespace Memory

/-- What the record says to somebody who only sees live ones. -/
def Record.holding (r : Record) : Holding := ⟨r.owner, r.expires⟩

namespace Store

/-- What the live record of a name says. -/
def live? (s : Store) (now : Instant) (name : String) : Option Holding :=
  ((s.record? name).filter (·.isLive now)).map Record.holding

variable {s : Store} {now : Instant} {o : Options} {name : String} {h : Holding} {op : Op}

theorem live?_of_record? {r : Record} (hr : s.record? name = some r) (hl : now < r.expires) :
    s.live? now name = some ⟨r.owner, r.expires⟩ := by
  have hlive : r.isLive now = true := decide_eq_true hl
  unfold live?
  rw [hr, Option.filter_some, if_pos hlive]
  rfl

theorem live?_eq_none_of_ended (h : ∀ r, s.record? name = some r → r.expires ≤ now) :
    s.live? now name = none := by
  unfold live?
  rw [Option.map_eq_none_iff, Option.filter_eq_none_iff]
  intro r hr
  simp [Record.isLive, h r hr]

theorem live?_insert (s : Store) (now : Instant) (r : Record) (hl : now < r.expires) (name k) :
    (s.insert name r).live? now k =
      if k = name then some ⟨r.owner, r.expires⟩ else s.live? now k := by
  by_cases hk : k = name
  · rw [if_pos hk]
    exact live?_of_record? (by rw [record?_insert, if_pos hk]) hl
  · unfold live?
    rw [record?_insert, if_neg hk, if_neg hk]

theorem live?_erase (s : Store) (now : Instant) (name k : String) :
    (s.erase name).live? now k = if k = name then none else s.live? now k := by
  unfold live?
  rw [record?_erase]
  by_cases hk : k = name
  · rw [if_pos hk, if_pos hk]
    rfl
  · rw [if_neg hk, if_neg hk]

theorem live_or_ended (s : Store) (now : Instant) (name : String) :
    (∃ r, s.record? name = some r ∧ now < r.expires ∧
      s.live? now name = some ⟨r.owner, r.expires⟩) ∨
    ((∀ r, s.record? name = some r → r.expires ≤ now) ∧ s.live? now name = none) := by
  by_cases h : ∃ r, s.record? name = some r ∧ now < r.expires
  · obtain ⟨r, hr, hl⟩ := h
    exact .inl ⟨r, hr, hl, live?_of_record? hr hl⟩
  · have hended : ∀ r, s.record? name = some r → r.expires ≤ now :=
      fun r hr => Nat.le_of_not_lt fun hl => h ⟨r, hr, hl⟩
    exact .inr ⟨hended, live?_eq_none_of_ended hended⟩

theorem live?_later (s : Store) (name : String) {now til : Instant} (hle : now ≤ til) :
    s.live? til name = (s.live? now name).filter fun h => til < h.ends := by
  rcases s.live_or_ended now name with ⟨r, hr, -, hlive⟩ | ⟨hended, hlive⟩
  · rw [hlive, Option.filter_some]
    by_cases hl : til < r.expires
    · rw [if_pos (decide_eq_true hl)]
      exact live?_of_record? hr hl
    · rw [if_neg (by simpa using hl)]
      refine live?_eq_none_of_ended fun r' hr' => ?_
      rw [Option.some.inj (hr'.symm.trans hr)]
      exact Nat.le_of_not_lt hl
  · rw [hlive, Option.filter_none]
    exact live?_eq_none_of_ended fun r hr => Nat.le_trans (hended r hr) hle

/-- The answer is the lock's, and so is the live record of the name afterwards. -/
structure Keeps (s : Store) (now : Instant) (o : Options) (op : Op) : Prop where
  verdict : (s.answer now o op).2.verdict? = some (serve now o op (s.live? now o.name)).2
  live : (s.answer now o op).1.live? now o.name = (serve now o op (s.live? now o.name)).1

theorem keeps_of_answer {s' : Store} {a : Answer} {live : Option Holding} {verdict : Verdict}
    (hans : s.answer now o op = (s', a))
    (hserve : serve now o op (s.live? now o.name) = (live, verdict))
    (hverdict : a.verdict? = some verdict) (hl : s'.live? now o.name = live) :
    s.Keeps now o op where
  verdict := by rw [hans, hserve, hverdict]
  live := by rw [hans, hserve, hl]

theorem answer_of_acquire {s' : Store} {r : Except LockError Attempt}
    (h : s.acquire now o = (s', r)) : s.answer now o .acquire = (s', .acquire r) := by
  rw [answer, h]
  rfl

theorem answer_of_refresh {s' : Store} {r : Except LockError Unit}
    (h : s.refresh now o = (s', r)) : s.answer now o .refresh = (s', .refresh r) := by
  rw [answer, h]
  rfl

theorem live?_of_written (hw : o.Whole) (s : Store) (now : Instant) :
    (s.insert o.name ⟨o.owner, o.lease.after now⟩).live? now o.name =
      some ⟨o.owner, o.lease.after now⟩ := by
  rw [live?_insert s now _ (hw.lt_after now), if_pos rfl]

theorem Admits.keeps_acquire (ha : s.Admits now o) (hw : o.Whole) : s.Keeps now o .acquire := by
  rcases s.live_or_ended now o.name with ⟨r, hr, hl, hlive⟩ | ⟨hended, hlive⟩
  · by_cases ho : r.owner = o.owner
    · have hfree : ∀ r, s.record? o.name = some r → now < r.expires → r.owner = o.owner := by
        intro r' hr' _
        rw [Option.some.inj (hr'.symm.trans hr), ho]
      exact keeps_of_answer (answer_of_acquire (ha.acquire_of_free hfree))
        (by rw [hlive, serve, if_pos ho]) rfl (live?_of_written hw s now)
    · exact keeps_of_answer (answer_of_acquire (ha.acquire_of_live hr hl (Ne.symm ho)))
        (by rw [hlive, serve, if_neg ho]) rfl hlive
  · have hfree : ∀ r, s.record? o.name = some r → now < r.expires → r.owner = o.owner :=
      fun r hr hl => absurd hl (Nat.not_lt.2 (hended r hr))
    exact keeps_of_answer (answer_of_acquire (ha.acquire_of_free hfree))
      (by rw [hlive, serve]) rfl (live?_of_written hw s now)

theorem Admits.keeps_refresh (ha : s.Admits now o) (hw : o.Whole) : s.Keeps now o .refresh := by
  rcases s.live_or_ended now o.name with ⟨r, hr, hl, hlive⟩ | ⟨hended, hlive⟩
  · have hrefresh := ha.refresh_of_live hr hl
    by_cases ho : r.owner = o.owner
    · rw [if_pos ho, ho] at hrefresh
      exact keeps_of_answer (answer_of_refresh hrefresh) (by rw [hlive, serve, if_pos ho]) rfl
        (live?_of_written hw s now)
    · rw [if_neg ho] at hrefresh
      exact keeps_of_answer (answer_of_refresh hrefresh) (by rw [hlive, serve, if_neg ho]) rfl
        hlive
  · exact keeps_of_answer (answer_of_refresh (ha.refresh_of_ended hended))
      (by rw [hlive, serve]) rfl hlive

theorem answer_of_release {s' : Store} {r : Except LockError Unit}
    (h : s.release o = (s', r)) : s.answer now o .release = (s', .release r) := by
  rw [answer, h]
  rfl

theorem release_of_own {r : Record} (hreach : s.reach o.owner = .ok ())
    (hr : s.record? o.name = some r) (ho : r.owner = o.owner) :
    s.release o = (s.erase o.name, .ok ()) := by
  simp only [release, hreach, hr, if_pos ho]

theorem release_of_other (hreach : s.reach o.owner = .ok ())
    (hne : ∀ r, s.record? o.name = some r → r.owner ≠ o.owner) : s.release o = (s, .ok ()) := by
  cases hr : s.record? o.name with
  | none => simp only [release, hreach, hr]
  | some r => simp only [release, hreach, hr, if_neg (hne r hr)]

/-- A release also deletes a record of its owner that has ended, which nobody sees. -/
theorem keeps_release (hreach : s.reach o.owner = .ok ()) (now : Instant) :
    s.Keeps now o .release := by
  by_cases hown : ∃ r, s.record? o.name = some r ∧ r.owner = o.owner
  · obtain ⟨r, hr, ho⟩ := hown
    have hgone : (s.erase o.name).live? now o.name = none := by
      rw [live?_erase, if_pos rfl]
    refine keeps_of_answer (answer_of_release (release_of_own hreach hr ho)) ?_ rfl hgone
    rcases s.live_or_ended now o.name with ⟨r', hr', -, hlive⟩ | ⟨-, hlive⟩
    · have ho' : r'.owner = o.owner := by rw [Option.some.inj (hr'.symm.trans hr), ho]
      rw [hlive, serve, if_pos ho']
    · rw [hlive, serve]
  · have hne : ∀ r, s.record? o.name = some r → r.owner ≠ o.owner :=
      fun r hr ho => hown ⟨r, hr, ho⟩
    refine keeps_of_answer (answer_of_release (release_of_other hreach hne))
      (serve_release_other ?_) rfl rfl
    intro h hlive
    rcases s.live_or_ended now o.name with ⟨r, hr, -, hlive'⟩ | ⟨-, hnone⟩
    · cases hlive'.symm.trans hlive
      exact hne r hr
    · cases hnone.symm.trans hlive

/-- **The calls that are let through are those of the lock.** -/
theorem keeps_answer (hreach : o.owner ∉ s.cutOff)
    (hop : op ≠ .release → o.Whole ∧ o.lease.after now < clockRange) : s.Keeps now o op := by
  cases op with
  | acquire =>
    obtain ⟨hw, hshown⟩ := hop nofun
    exact Admits.keeps_acquire ⟨hreach, hshown⟩ hw
  | refresh =>
    obtain ⟨hw, hshown⟩ := hop nofun
    exact Admits.keeps_refresh ⟨hreach, hshown⟩ hw
  | release => exact keeps_release (if_neg hreach) now

theorem live?_answer_of_ne {k : String} (hk : k ≠ o.name) (op : Op) :
    (s.answer now o op).1.live? now k = s.live? now k := by
  unfold live?
  rw [record?_answer_of_ne hk]

end Store

end Memory

/-! ## Both at once -/

/-- A call of an adapter, and when it is made. -/
structure Visit where
  time : Instant
  errand : Errand Empty
  op : Op

namespace Visit

def options (v : Visit) : Options := v.errand.options

/-- A call on the lock that its adapter was made for, with a lease of whole seconds. A lease that
it asks for ends while the clock of a store in memory still shows the time. -/
structure Proper (v : Visit) : Prop where
  named : v.errand.own.name = v.options.name
  whole : ∃ secs, 1 ≤ secs ∧ v.options.lease = .ofSecs secs
  shown : v.op ≠ .release → v.options.lease.after v.time < Memory.Store.clockRange

theorem Proper.options_whole {v : Visit} (h : v.Proper) (hop : v.op ≠ .release) :
    v.options.Whole := by
  obtain ⟨secs, hone, hlease⟩ := h.whole
  refine ⟨secs, hone, ?_, hlease⟩
  have hlt : v.options.lease.nanos < Memory.Store.clockRange :=
    Nat.lt_of_le_of_lt (Nat.le_add_left _ _) (h.shown hop)
  rw [hlease] at hlt
  simp only [Duration.ofSecs, Duration.ofParts, Memory.Store.clockRange, Duration.perSecond] at hlt
  omega

end Visit

/-- A server of keys, and a store in memory. -/
structure Pair where
  server : Database := {}
  store : Memory.Store := {}

/-- A call that was made on both: what the server's adapter has answered, and the store. -/
structure Round where
  visit : Visit
  answers : Answer × Answer
  after : Pair

/-- Both have come to the same verdict. -/
def Round.Alike (r : Round) : Prop :=
  ∃ verdict, r.answers.1.verdict? = some verdict ∧ r.answers.2.verdict? = some verdict

namespace Pair

/-- Makes a call on both, at its time. -/
def call (ks : Keyspace) (p : Pair) (v : Visit) : Option Round :=
  match (ks.adapter v.errand v.op).run (p.server.asOf v.time) with
  | (server, .ok (_, answer)) =>
    let (store, answer') := p.store.answer v.time v.options v.op
    some ⟨v, (answer, answer'), server, store⟩
  | (_, .error _) => none

/-- Makes calls on both, one after the other. -/
def calls (ks : Keyspace) : Pair → List Visit → Option (List Round)
  | _, [] => some []
  | p, v :: vs => (p.call ks v).bind fun r => (r.after.calls ks vs).map (r :: ·)

/-- Both hold the same live records: of every name, with the same owner and the same end. -/
def Agree (ks : Keyspace) (now : Instant) (p : Pair) : Prop :=
  ∀ name, (p.server.asOf now).live? (ks.key name) = p.store.live? now name

variable {ks : Keyspace} {p : Pair} {v : Visit} {now til : Instant}

/-- As time passes, records end on both sides alike. -/
theorem Agree.later (h : p.Agree ks now) (hle : now ≤ til) : p.Agree ks til := by
  intro name
  have hserver := Redis.Database.live?_later p.server (ks.key name) hle
  have hstore := p.store.live?_later name hle
  rw [hserver, hstore, h name]

/-- **One call.** Both come out alike, and hold the same live records afterwards. -/
theorem Agree.call (h : p.Agree ks v.time) (hc : p.store.cutOff = []) (hv : v.Proper) :
    ∃ r, p.call ks v = some r ∧ r.visit = v ∧ r.Alike ∧ r.after.Agree ks v.time ∧
      r.after.store.cutOff = [] := by
  have hreach : v.options.owner ∉ p.store.cutOff := by
    rw [hc]
    exact List.not_mem_nil
  have hlive : (p.server.asOf v.time).live? (ks.key v.errand.own.name) =
      p.store.live? v.time v.options.name := by
    rw [hv.named]
    exact h v.options.name
  obtain ⟨server, answer, hrun, hverdict, hserver⟩ :=
    Redis.keeps_adapter ks hv.options_whole (p.server.asOf v.time)
  have hstore := Memory.Store.keeps_answer hreach fun hop => ⟨hv.options_whole hop, hv.shown hop⟩
  rw [hlive] at hverdict hserver
  refine ⟨⟨v, (answer, (p.store.answer v.time v.options v.op).2), server,
    (p.store.answer v.time v.options v.op).1⟩, ?_, rfl, ⟨_, hverdict, hstore.verdict⟩, ?_, ?_⟩
  · rw [Pair.call, hrun]
  · intro name
    have hnow : server.asOf v.time = server := by
      have hclock : server.now = v.time := hserver.now
      rw [← hclock, Redis.Database.asOf_now]
    dsimp only
    rw [hnow]
    by_cases hn : name = v.options.name
    · rw [hn, ← hv.named, hserver.self, hv.named]
      exact hstore.live.symm
    · have hkey : ks.key name ≠ ks.key v.errand.own.name := by
        rw [hv.named]
        exact ks.key_injective.ne hn
      rw [hserver.others _ hkey, Memory.Store.live?_answer_of_ne hn]
      exact h name
  · exact (Memory.Store.cutOff_answer ..).trans hc

/-- **One lock, kept in two ways.** A server of keys and a store in memory that hold the same live
records, with nobody cut off, are called one time after another, each of the calls being run on the
server without commands of others in between. All calls come to an answer on both. Both come out
alike every time, and hold the same live records after every call. -/
theorem Agree.alike_calls (h : p.Agree ks now) (hc : p.store.cutOff = []) (visits : List Visit)
    (htime : (now :: visits.map Visit.time).IsChain (· ≤ ·)) (hv : ∀ v ∈ visits, v.Proper) :
    ∃ rounds, p.calls ks visits = some rounds ∧ rounds.map Round.visit = visits ∧
      ∀ r ∈ rounds, r.Alike ∧ r.after.Agree ks r.visit.time := by
  induction visits generalizing p now with
  | nil => exact ⟨[], rfl, rfl, List.forall_mem_nil _⟩
  | cons v visits ih =>
    rw [List.map_cons, List.isChain_cons_cons] at htime
    obtain ⟨r, hcall, rfl, halike, hafter, hcut⟩ :=
      (h.later htime.1).call hc (hv v List.mem_cons_self)
    obtain ⟨rounds, hrounds, hmap, hall⟩ :=
      ih hafter hcut htime.2 fun w hw => hv w (List.mem_cons_of_mem _ hw)
    refine ⟨r :: rounds, ?_, ?_, List.forall_mem_cons.2 ⟨⟨halike, hafter⟩, hall⟩⟩
    · rw [Pair.calls, hcall, Option.bind_some, hrounds]
      rfl
    · rw [List.map_cons, hmap]

/-- A call at some second, with a lease of two seconds. -/
def visitAt (secs : Nat) (owner : String) (op : Op) : Visit :=
  let o : Options := { owner, lease := .ofSecs 2 }
  ⟨secs * Duration.perSecond, ⟨o, o, none, 0, 0⟩, op⟩

theorem proper_visitAt {secs : Nat} (h : secs ≤ 5) (owner : String) (op : Op) :
    (visitAt secs owner op).Proper where
  named := rfl
  whole := ⟨2, by decide, rfl⟩
  shown _ := by
    have hrange : 5 * Duration.perSecond + 2 * Duration.perSecond < Memory.Store.clockRange := by
      decide
    exact Nat.lt_of_le_of_lt (Nat.add_le_add_right (Nat.mul_le_mul_right _ h) _) hrange

/-- The first owner takes the lock twice and refreshes it while the second one is in its way, and
lets it run out. The second one takes it over, and does not lose it to the release of the first. -/
def contended : List Visit :=
  [visitAt 0 "a" .acquire, visitAt 1 "b" .acquire, visitAt 1 "a" .acquire, visitAt 2 "b" .refresh,
    visitAt 2 "a" .refresh, visitAt 4 "a" .refresh, visitAt 4 "b" .acquire, visitAt 5 "a" .release,
    visitAt 5 "b" .release]

theorem alike_calls_contended : ∃ rounds,
    Pair.calls ⟨"locks:"⟩ {} contended = some rounds ∧ rounds.map Round.visit = contended ∧
    rounds.map (fun r => r.answers.2.verdict?) = [some .granted, some (.occupied "a"),
      some .granted, some .lost, some .refreshed, some .lost, some .granted, some .released,
      some .released] ∧
    ∀ r ∈ rounds, r.Alike ∧ r.after.Agree ⟨"locks:"⟩ r.visit.time := by
  have hempty : Agree ⟨"locks:"⟩ 0 {} := fun _ => rfl
  have hproper : ∀ v ∈ contended, v.Proper := by
    simp only [contended, List.forall_mem_cons]
    simp [proper_visitAt]
  obtain ⟨rounds, hrounds, hvisits, hall⟩ := hempty.alike_calls rfl contended (by decide) hproper
  refine ⟨rounds, hrounds, hvisits, ?_, hall⟩
  have hverdicts : (Pair.calls ⟨"locks:"⟩ {} contended).map
      (List.map fun r => r.answers.2.verdict?) = some _ := rfl
  rw [hrounds] at hverdicts
  exact Option.some.inj hverdicts

/-- A lease that ends when the clock of the store no longer shows the time. -/
def endless : Options := { owner := "a", lease := .ofSecs (maxInt64 + 1) }

theorem run_acquire_endless : ((Keyspace.mk "").adapter ⟨endless, endless, none, 0, 0⟩ .acquire).run
      (Database.asOf {} 0) =
    (Database.put {} endless.name (some (Database.hold {} "a" endless.wholeSecs)),
      .ok (none, .acquire (.ok .granted))) := by
  refine (Talk.run_bind ..).trans ?_
  rw [Redis.run_acquire_absent rfl]
  rfl

theorem answer_acquire_endless : ({} : Memory.Store).answer 0 endless .acquire =
    ({}, .acquire (.error (.misconfigured (.leaseOutOfRange (.ofSecs (maxInt64 + 1)))))) := by
  have hrange : Memory.Store.clockRange ≤ endless.lease.after 0 := by decide
  have hend : Memory.Store.leaseEnd 0 endless =
      .error (.misconfigured (.leaseOutOfRange (.ofSecs (maxInt64 + 1)))) := by
    simp only [Memory.Store.leaseEnd, if_pos hrange]
    rfl
  simp only [Memory.Store.answer, Memory.Store.acquire, hend]
  rfl

/-- **A lease of more seconds than 64 bits hold sets the two apart.** -/
theorem not_alike_endless : ∃ (v : Visit) (r : Round),
    v.errand.own.name = v.options.name ∧ v.options.lease = .ofSecs (maxInt64 + 1) ∧
    v.op = .acquire ∧ Agree ⟨""⟩ v.time {} ∧ Pair.call ⟨""⟩ {} v = some r ∧
    r.answers.1 = .acquire (.ok .granted) ∧
    r.answers.2 = .acquire (.error (.misconfigured (.leaseOutOfRange (.ofSecs (maxInt64 + 1))))) ∧
    ¬r.Alike ∧ ¬r.after.Agree ⟨""⟩ v.time := by
  have hcall : Pair.call ⟨""⟩ {} ⟨0, ⟨endless, endless, none, 0, 0⟩, .acquire⟩ =
      some ⟨⟨0, ⟨endless, endless, none, 0, 0⟩, .acquire⟩, (.acquire (.ok .granted),
          .acquire (.error (.misconfigured (.leaseOutOfRange (.ofSecs (maxInt64 + 1)))))),
        Database.put {} endless.name (some (Database.hold {} "a" endless.wholeSecs)), {}⟩ := by
    unfold Pair.call Visit.options
    rw [run_acquire_endless, answer_acquire_endless]
  refine ⟨_, _, rfl, rfl, rfl, fun _ => rfl, hcall, rfl, rfl, ?_, ?_⟩
  · rintro ⟨verdict, -, h⟩
    cases h
  · intro h
    have hends : 0 < (Database.hold {} "a" endless.wholeSecs).ends := by decide
    have hlive : (Database.put {} endless.name
        (some (Database.hold {} "a" endless.wholeSecs))).live? endless.name = none :=
      h endless.name
    rw [Redis.Database.live?_put_self, Option.filter_some, if_pos (decide_eq_true hends)] at hlive
    cases hlive

end Pair

end LeaseLock
