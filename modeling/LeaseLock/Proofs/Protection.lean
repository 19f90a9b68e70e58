import LeaseLock.Proofs.Mongo.Traffic
import LeaseLock.Proofs.Options
import LeaseLock.Proofs.Sql.Acquisitions

/-!
# How long a written record protects its owner

**Early readings** (`Options.IsEarly`). The clocks of databases read whole milliseconds, while a
lease is any number of nanoseconds. A reading is early if the lease is not over yet at it. The end
that is written leaves the fraction of a millisecond out, so the latest early reading is that end
itself if there is a fraction, and comes before it otherwise.

**Rows.** A row is taken over after its end, not at it, so no early reading takes it over
(`Sql.Traffic.Run.row_stands`).

**Documents.** A document is taken at its end already. It loses its owner at an early reading
exactly if an attempt is carried out at the instant of its end (`Mongo.document_stands_iff`), by
induction over the commands: one of another owner leaves the record standing or takes it
(`Change.stands`), and nobody else gives it back (`Change.stays_lost`).

Main result: `record_stands`.
-/

namespace LeaseLock

namespace Options

variable {o : Options} {t u : Int}

/-- At the reading `u`, a lease that began at the reading `t` is not over. -/
def IsEarly (o : Options) (t u : Int) : Prop :=
  u * Duration.perMilli < t * Duration.perMilli + o.lease.nanos

instance (o : Options) (t u : Int) : Decidable (o.IsEarly t u) :=
  inferInstanceAs (Decidable (_ < _))

theorem IsEarly.le (he : o.IsEarly t u) (h : o.check = .ok ()) : u ≤ t + o.wholeMillis := by
  have hmillis := (check_eq_ok_iff.1 h).wholeMillis_eq
  simp only [IsEarly, Duration.millis, Duration.perMilli] at he hmillis
  omega

/-- **The end that is written is early** exactly if the lease has a fraction of a millisecond. -/
theorem isEarly_end_iff (h : o.check = .ok ()) :
    o.IsEarly t (t + o.wholeMillis) ↔ ¬ Duration.perMilli ∣ o.lease.nanos := by
  have hmillis := (check_eq_ok_iff.1 h).wholeMillis_eq
  simp only [IsEarly, Duration.millis, Duration.perMilli] at hmillis ⊢
  omega

end Options

/-! ## Rows -/

namespace Sql

namespace Done

/-- An attempt of another owner on the record that a call has written. -/
structure Rivals (y x : Done) : Prop where
  name : y.name = x.name
  owner : y.owner ≠ x.owner
  op : y.op = .acquire

/-- No early reading is beyond the end, so that the record is not taken over. -/
theorem not_takenOver_of_early {x : Done} {later : List Done}
    (h : x.errand.options.check = .ok ())
    (he : ∀ y ∈ later, y.Rivals x → x.errand.options.IsEarly x.reading y.reading) :
    ¬ x.TakenOver later := by
  rintro ⟨y, hy, hname, howner, hop, -, hlt⟩
  have hle := (he y hy ⟨hname, howner, hop⟩).le h
  unfold Call.due at hlt
  omega

end Done

namespace Traffic

variable {t : Traffic} {later earlier : List Done} {x : Done}

/-- **A row stands until the lease is over**: it is what its owner has written, and everybody else
is told who the owner is. -/
theorem Run.row_stands (run : Run t) (hlog : t.log = later ++ x :: earlier) (ht : x.Takes)
    (hu : x.Untouched later) (h : x.errand.options.check = .ok ())
    (he : ∀ y ∈ later, y.Rivals x → x.errand.options.IsEarly x.reading y.reading) :
    (∃ r, Database.row? t.rows x.name = some r ∧ r.owner = x.owner ∧ r.expiredAt = x.ends) ∧
    ∀ y ∈ later, y.Rivals x →
      y.answer = .acquire (.ok (.occupied (some x.owner))) ∧ y.after = y.before := by
  refine ⟨(run.record_of_renewed hlog ht.2 hu).resolve_left (Done.not_takenOver_of_early h he), ?_⟩
  intro y hy hrival
  have hle : y.reading ≤ x.due := (he y hy hrival).le h
  have hlawful : y.Lawful := run.proper.lawful y (by simp [hlog, hy])
  obtain ⟨newer, older, rfl⟩ := List.append_of_mem hy
  have hsub : ∀ z ∈ older, z ∈ newer ++ y :: older := by
    intro z hz
    simp [hz]
  -- the rival finds the record as it was written, since it stood in the state before
  rw [List.append_assoc, List.cons_append] at hlog
  obtain ⟨t₀, run₀, hlog₀, hrows⟩ := run.exists_before hlog
  have hfree := Done.not_takenOver_of_early h fun z hz => he z (hsub z hz)
  obtain ⟨r, hrow, howner, hends⟩ :=
    (run₀.record_of_renewed hlog₀ ht.2 fun z hz => hu z (hsub z hz)).resolve_left hfree
  rw [hrows, ← hrival.name] at hrow
  rcases hlawful.acquired hrival.op hrow with ⟨-, hanswer, hafter⟩ | ⟨hlt, -⟩
  · exact ⟨howner ▸ hanswer, hafter⟩
  · have hreading := hlawful.reading_le
    rw [Call.ends_eq] at hends
    omega

end Traffic

end Sql

/-! ## Documents -/

namespace Mongo

/-- The command is not the record's owner's: it is another owner's attempt to take the document, or
its filter is not met by the record. -/
def Command.IsForeign (c : Command) (r : Record) : Prop :=
  match c with
  | .take _ o _ => o.owner ≠ r.owner
  | .extend .. | .delete .. => ¬ c.Meets r

instance (c : Command) (r : Record) : Decidable (c.IsForeign r) := by
  unfold Command.IsForeign Command.Meets
  cases c <;> infer_instance

/-- The reply to an attempt that was carried out. -/
def Reply.IsFound (reply : Reply) : Prop := ∃ b, reply = .found b

namespace Database

variable {db db' : Database} {c : Command} {reply : Reply} {key : String × String} {r : Record}
  {owner : String}

theorem record?_put_of_ne {place : String × String} {b : Option Bson} (h : place ≠ key) :
    (db.put place b).record? key = db.record? key := by
  rw [record?_put, if_neg (Ne.symm h)]

/-- **A foreign command leaves the record standing**, unless it is an attempt after the end, which
gives the document to somebody else. -/
theorem Change.stands (h : Change db c db' reply) (hr : db.record? key = some r)
    (hf : c.key = key → c.IsForeign r) :
    (db'.record? key = some r ∧ (c.key = key → reply.IsFound → db.now < r.expiredAt)) ∨
    (c.key = key ∧ reply.IsFound ∧ r.expiredAt ≤ db.now ∧
      ∃ r', db'.record? key = some r' ∧ r'.owner ≠ r.owner) := by
  cases h with
  | failed | unmet => exact .inl ⟨hr, fun _ ⟨b, hb⟩ => nomatch hb⟩
  | @taken collection token o b r' htake hb _ _ howner _ _ =>
    by_cases hkey : (collection, o.name) = key
    · subst hkey
      have hforeign : o.owner ≠ r.owner := hf rfl
      have hended := (htake r hr).resolve_right (Ne.symm hforeign)
      refine .inr ⟨rfl, ⟨_, rfl⟩, hended, r', ?_, howner ▸ hforeign⟩
      rw [record?_put, if_pos rfl]
      exact hb
    · exact .inl ⟨(record?_put_of_ne hkey).trans hr, fun h => absurd h hkey⟩
  | @held collection token o b r' hdoc hb hnot =>
    refine .inl ⟨hr, fun hkey _ => ?_⟩
    have hkey : (collection, o.name) = key := hkey
    have hrec : db.record? key = some r' := Option.bind_eq_some_iff.2 ⟨b, hkey ▸ hdoc, hb⟩
    cases hrec.symm.trans hr
    exact Int.not_le.1 fun hended => hnot (.inl hended)
  | @extended collection token o b r' hrec howner htoken _ =>
    by_cases hkey : (collection, o.name) = key
    · subst hkey
      cases hrec.symm.trans hr
      exact absurd ⟨howner, htoken⟩ (hf rfl)
    · exact .inl ⟨(record?_put_of_ne hkey).trans hr, fun h => absurd h hkey⟩
  | @deleted collection token o r' hrec htoken =>
    by_cases hkey : (collection, o.name) = key
    · subst hkey
      cases hrec.symm.trans hr
      exact absurd htoken (hf rfl)
    · exact .inl ⟨(record?_put_of_ne hkey).trans hr, fun h => absurd h hkey⟩

theorem lost_put {place : String × String} {b : Option Bson}
    (hlost : ∀ r', db.record? key = some r' → r'.owner ≠ r.owner)
    (hb : place = key → ∀ r', b.bind Record.ofBson? = some r' → r'.owner ≠ r.owner) :
    ∀ r', (db.put place b).record? key = some r' → r'.owner ≠ r.owner := by
  intro r' hr'
  by_cases hkey : place = key
  · rw [record?_put, if_pos hkey.symm] at hr'
    exact hb hkey r' hr'
  · rw [record?_put_of_ne hkey] at hr'
    exact hlost r' hr'

/-- **A foreign command does not give the document back** to an owner who has lost it. -/
theorem Change.stays_lost (h : Change db c db' reply)
    (hlost : ∀ r', db.record? key = some r' → r'.owner ≠ r.owner)
    (hf : c.key = key → c.IsForeign r) :
    ∀ r', db'.record? key = some r' → r'.owner ≠ r.owner := by
  cases h with
  | failed | held | unmet => exact hlost
  | taken _ hb _ _ howner _ _ =>
    refine lost_put hlost fun hkey r' hr' => ?_
    cases hb.symm.trans hr'
    exact howner ▸ hf hkey
  | @extended collection token o b r₁ hrec _ _ hb =>
    refine lost_put hlost fun hkey r' hr' => ?_
    cases hb.symm.trans hr'
    exact hlost r₁ (hkey ▸ hrec)
  | deleted => exact lost_put hlost fun _ r' hr' => nomatch hr'

end Database

open Network

variable {s s' : Database} {x y : Exchange} {newer older : List Exchange} {key : String × String}
  {r : Record} {collection token : String} {o : Options}

/-- A command that was handled after a document was written is foreign, if it is about that
document, and comes early, if it is an attempt that is carried out. -/
structure FromOutside (o : Options) (t : Nat) (key : String × String) (r : Record) (y : Exchange) :
    Prop where
  foreign : y.question.key = key → y.question.IsForeign r
  early : y.question.key = key → y.reply.IsFound → o.IsEarly t y.before.now

/-- An attempt on the document is carried out at the instant of its end. -/
def TriedAtEnd (key : String × String) (r : Record) (ys : List Exchange) : Prop :=
  ∃ y ∈ ys, y.question.key = key ∧ y.reply.IsFound ∧ y.before.now = r.expiredAt

theorem triedAtEnd_cons {ys : List Exchange} : TriedAtEnd key r (y :: ys) ↔
    (y.question.key = key ∧ y.reply.IsFound ∧ y.before.now = r.expiredAt) ∨ TriedAtEnd key r ys :=
  List.exists_mem_cons_iff ..

/-- The record stands, or somebody else has got the document by an attempt at its end. -/
def StandsOrLost (db : Database) (key : String × String) (r : Record) (ys : List Exchange) : Prop :=
  (db.record? key = some r ∧ ¬ TriedAtEnd key r ys) ∨
  ((∀ r', db.record? key = some r' → r'.owner ≠ r.owner) ∧ TriedAtEnd key r ys)

theorem Takes.written (h : Takes x key r) (hq : x.question = .take collection o token)
    (hc : Database.Change x.before x.question x.after x.reply) :
    x.after.record? key = some r ∧ r.owner = o.owner ∧
      r.expiredAt = x.before.now + o.wholeMillis := by
  obtain ⟨rfl, ⟨_, _, hq', howner⟩, b, hreply, hb⟩ := takes_iff.1 h
  cases hq.symm.trans hq'
  obtain ⟨_, _, _, r', hq', hb', hcase⟩ := hc.of_found hreply
  cases hq.symm.trans hq'
  cases hb.symm.trans hb'
  rcases hcase with ⟨hafter, -, -, hend⟩ | ⟨-, hnot⟩
  · refine ⟨?_, howner, hend⟩
    rw [hafter, hq, Database.record?_put]
    exact (if_pos rfl).trans hb
  · exact absurd (.inr howner) hnot

/-- **The record stands, or is lost for good**, by induction over the commands. -/
theorem standsOrLost_of_served (hin : s.InOrder) (hs : Served s s' newer)
    (hr : s.record? key = some r) (h : o.check = .ok ()) {t : Nat}
    (hend : r.expiredAt = t + o.wholeMillis)
    (hy : ∀ y ∈ newer, FromOutside o t key r y) : StandsOrLost s' key r newer := by
  induction hs with
  | start => exact .inl ⟨hr, fun ⟨_, hm, _⟩ => nomatch hm⟩
  | @handled ys y choice hserved hserve ih =>
    have hchange := Database.change_of_serve (served_inOrder hin hserved) hserve
    have houtside := hy y List.mem_cons_self
    unfold StandsOrLost
    rw [triedAtEnd_cons]
    rcases ih fun z hz => hy z (List.mem_cons_of_mem _ hz) with ⟨hstands, hnone⟩ | ⟨hlost, htried⟩
    · rcases hchange.stands hstands houtside.foreign with
        ⟨hstands, hbefore⟩ | ⟨hkey, hfound, hended, r', hr', howner⟩
      · refine .inl ⟨hstands, ?_⟩
        rintro (⟨hkey, hfound, hnow⟩ | htried)
        · have hlt := hbefore hkey hfound
          omega
        · exact hnone htried
      · have hle := (houtside.early hkey hfound).le h
        refine .inr ⟨fun r₁ hr₁ => ?_, .inl ⟨hkey, hfound, by omega⟩⟩
        cases hr'.symm.trans hr₁
        exact howner
    · exact .inr ⟨hchange.stays_lost hlost houtside.foreign, .inr htried⟩
  | passed _ hpass ih =>
    rw [Database.eq_of_elapse hpass]
    exact ih hy

/-- **A document stands until the lease is over**, unless an attempt is carried out at the very
instant of the end that was written. -/
theorem document_stands_iff (hin : s.InOrder) (hs : Served s s' (newer ++ x :: older))
    (hq : x.question = .take collection o token) (hx : Takes x key r) (h : o.check = .ok ())
    (hy : ∀ y ∈ newer, FromOutside o x.before.now key r y) :
    s'.record? key = some r ↔ ¬ TriedAtEnd key r newer := by
  obtain ⟨hbefore, ⟨_, hserve⟩, hafter⟩ := hs.split
  have hin' := served_inOrder hin hbefore
  have hchange := Database.change_of_serve hin' hserve
  obtain ⟨hr, -, hend⟩ := hx.written hq hchange
  rcases standsOrLost_of_served (Database.inOrder_of_change hin' hchange) hafter hr h hend hy with
    ⟨hstands, hnone⟩ | ⟨hlost, htried⟩
  · exact iff_of_true hstands hnone
  · exact iff_of_false (fun hr' => hlost r hr' rfl) (not_not_intro htried)

/-- **A lease of whole milliseconds** is never lost early. -/
theorem not_triedAtEnd (hx : r.expiredAt = x.before.now + o.wholeMillis) (h : o.check = .ok ())
    (hwhole : Duration.perMilli ∣ o.lease.nanos)
    (hy : ∀ y ∈ newer, FromOutside o x.before.now key r y) : ¬ TriedAtEnd key r newer := by
  rintro ⟨y, hm, hkey, hfound, hnow⟩
  have hearly := (hy y hm).early hkey hfound
  rw [hnow, hx] at hearly
  exact (Options.isEarly_end_iff h).1 hearly hwhole

end Mongo

/-! ## Both -/

/-- **How long a written record protects its owner**, for options that are accepted. As long as the
lease is not over, and the owner does not touch it, a row stands, and every attempt of another
owner is told who the owner is. A document stands as long unless an attempt is carried out at the
very instant of the end that was written. That instant is early exactly if the lease has a fraction
of a millisecond, so a document protects its owner for the whole lease if the lease has none. -/
theorem record_stands {o : Options} (h : o.check = .ok ()) :
    (∀ (t : Sql.Traffic) (later earlier : List Sql.Done) (x : Sql.Done), t.Run →
      t.log = later ++ x :: earlier → x.errand.options = o → x.Takes → x.Untouched later →
      (∀ y ∈ later, y.Rivals x → o.IsEarly x.reading y.reading) →
      (∃ r, Sql.Database.row? t.rows o.name = some r ∧ r.owner = o.owner ∧
        r.expiredAt = x.ends) ∧
      ∀ y ∈ later, y.Rivals x →
        y.answer = .acquire (.ok (.occupied (some o.owner))) ∧ y.after = y.before) ∧
    (∀ (s s' : Mongo.Database) (newer older : List Mongo.Exchange) (x : Mongo.Exchange)
      (collection token : String) (r : Mongo.Record), s.InOrder →
      Network.Served s s' (newer ++ x :: older) → x.question = .take collection o token →
      Mongo.Takes x (collection, o.name) r →
      (∀ y ∈ newer, Mongo.FromOutside o x.before.now (collection, o.name) r y) →
      (s'.record? (collection, o.name) = some r ↔
        ¬ Mongo.TriedAtEnd (collection, o.name) r newer) ∧
      (Duration.perMilli ∣ o.lease.nanos → s'.record? (collection, o.name) = some r)) ∧
    ∀ t : Int, o.IsEarly t (t + o.wholeMillis) ↔ ¬ Duration.perMilli ∣ o.lease.nanos := by
  refine ⟨?_, ?_, fun t => Options.isEarly_end_iff h⟩
  · rintro t later earlier x run hlog rfl ht hu he
    exact run.row_stands hlog ht hu h he
  · intro s s' newer older x collection token r hin hs hq hx hy
    have hiff := Mongo.document_stands_iff hin hs hq hx h hy
    refine ⟨hiff, fun hwhole => hiff.2 ?_⟩
    obtain ⟨hbefore, ⟨_, hserve⟩, -⟩ := hs.split
    have hchange := Mongo.Database.change_of_serve (Mongo.served_inOrder hin hbefore) hserve
    exact Mongo.not_triedAtEnd (hx.written hq hchange).2.2 h hwhole hy

/-- A lease of a millisecond and a half. -/
def fractional (owner : String) : Options := { name := "job", owner, lease := ⟨1500000⟩ }

/-- A document is taken by one owner and, a millisecond later, by another one, although the lease
is not over yet. -/
theorem taken_early :
    (fractional "a").check = .ok () ∧ (fractional "b").check = .ok () ∧
    (fractional "a").IsEarly 0 1 ∧
    ((({ now := 0 } : Mongo.Database).execute (.take "locks" (fractional "a") "x")).bind fun p =>
      (({ p.1 with now := 1 } : Mongo.Database).execute (.take "locks" (fractional "b") "y")).map
        fun q => (p.1.record? ("locks", "job"), q.1.record? ("locks", "job"))) =
      some (some ⟨"job", "job", "a", "x", 1, 0, 0⟩, some ⟨"job", "job", "b", "y", 2, 0, 1⟩) := by
  refine ⟨rfl, rfl, by decide, ?_⟩
  decide +kernel

/-- The first owner takes the lock, the second one tries when a millisecond has passed. -/
def triedEarlyRow : List Sql.Move :=
  let errand (owner : String) : Errand Empty := ⟨fractional owner, fractional owner, none, 0, 0⟩
  [.call 0 (errand "a") .acquire, .execute 0, .elapse 1, .call 1 (errand "b") .acquire, .execute 0]

/-- The same on a document. -/
def triedEarlyDocument : List (Network.Move Mongo.Reply (Option (Int × String)) Nat) :=
  [.begin 0 (fractional "a") .acquire, .reach 0 none, .pass 1,
    .begin 1 (fractional "b") .acquire, .reach 1 none]

/-- The document was taken at the start, and again after a millisecond. -/
def isTakenEarly (t : Mongo.Traffic) : Bool :=
  (Network.exchanges t.log).map (fun x => (x.question, x.before.now, Mongo.taken? x)) =
    [(.take "locks" (fractional "b") "xx", 1,
        some (("locks", "job"), ⟨"job", "job", "b", "xx", 2, 0, 1⟩)),
      (.take "locks" (fractional "a") "x", 0,
        some (("locks", "job"), ⟨"job", "job", "a", "x", 1, 0, 0⟩))]

theorem record_stands_fractional :
    (∃ (t : Sql.Traffic) (first second : Sql.Done), t.Run ∧ t.log = [second, first] ∧
      second.Rivals first ∧ (fractional "a").IsEarly first.reading second.reading ∧
      second.answer = .acquire (.ok (.occupied (some "a")))) ∧
    ∃ (t : Mongo.Traffic) (first second : Mongo.Exchange) (r : Mongo.Record),
      Network.exchanges t.log = [second, first] ∧ Mongo.Takes first ("locks", "job") r ∧
      (fractional "a").IsEarly first.before.now second.before.now ∧
      t.server.record? ("locks", "job") ≠ some r := by
  obtain ⟨rows, documents, -⟩ := record_stands (o := fractional "a") rfl
  constructor
  · have order : Sql.InOrder .sqlite { table := some [] } [] :=
      ⟨rfl, by decide, rfl, rfl, List.nodup_nil⟩
    have run : Sql.Traffic.Run _ := (@Sql.Traffic.Run.start _ _ _ 0 order (by decide)).replay
      (Option.some_get (x := Sql.Traffic.replay _ triedEarlyRow) rfl).symm
    obtain ⟨-, others⟩ := rows _ [_] [] _ run rfl rfl ⟨rfl, rfl⟩
      (List.forall_mem_singleton.2 fun _ => nofun) (List.forall_mem_singleton.2 fun _ => by decide)
    have told := others _ List.mem_cons_self ⟨rfl, by decide, rfl⟩
    exact ⟨_, _, _, run, rfl, ⟨rfl, by decide, rfl⟩, by decide, told.1⟩
  · obtain ⟨t, run, hp⟩ : ∃ t, Network.Traffic.Run
      (Mongo.clients Mongo.growing fun _ => fractional "a") { now := 0 } t ∧
      isTakenEarly t = true := Network.Traffic.exists_run triedEarlyDocument (by decide +kernel)
    simp only [isTakenEarly, decide_eq_true_iff] at hp
    obtain ⟨second, firsts, hlog, hsecond, hfirsts⟩ := List.map_eq_cons_iff.1 hp
    obtain ⟨first, rest, rfl, hfirst, hrest⟩ := List.map_eq_cons_iff.1 hfirsts
    cases List.map_eq_nil_iff.1 hrest
    obtain ⟨hq, hnow, htakes⟩ : _ ∧ _ ∧ _ := by simpa only [Prod.mk.injEq] using hfirst
    obtain ⟨hq', hnow', htakes'⟩ : _ ∧ _ ∧ _ := by simpa only [Prod.mk.injEq] using hsecond
    have early : (fractional "a").IsEarly first.before.now second.before.now := by
      rw [hnow, hnow']
      decide
    obtain ⟨hkey, -, b, hfound, -⟩ := Mongo.takes_iff.1 htakes'
    have served := run.served
    rw [hlog] at served
    obtain ⟨stands, -⟩ := documents _ _ [second] [] first _ _ _ Mongo.sensible_growing.inOrder
      served hq htakes
      (List.forall_mem_singleton.2 ⟨fun _ => by rw [hq']; decide, fun _ _ => early⟩)
    refine ⟨t, first, second, _, hlog, htakes, early, fun hr => stands.1 hr ?_⟩
    exact ⟨second, List.mem_cons_self, hkey, ⟨b, hfound⟩, by rw [hnow']; rfl⟩

end LeaseLock
