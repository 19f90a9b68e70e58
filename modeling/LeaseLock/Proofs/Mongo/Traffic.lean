import LeaseLock.Proofs.Mongo.Database
import LeaseLock.Proofs.Mongo.Dialogues
import LeaseLock.Proofs.Remote.Transcript

/-!
# One acquisition at a time

**The clients.** Any number of them keep locks in one collection, and their commands reach the
server in any order. The tokens that they mint are distinct, and no document carries one at first
(`Sensible`).

**Where a token in a document comes from** (`Source`). It was there from the start, or it is that
of the last command that took the document. An attempt takes the document once at most
(`not_takes_twice`), since an undisturbed operation has heard all that was replied to it.

Main result: `exclusive_document`.
-/

namespace LeaseLock.Mongo

open Network Network.Traffic

abbrev Exchange := Network.Exchange Database Command Reply String

abbrev Entry := Network.Entry Database Command Reply String

abbrev Traffic := Network.Traffic Database Command Reply String

/-- Clients that keep their locks in a collection. -/
def clients (c : Collection) (own : Nat → Options) (home : Nat) : Client Command Reply String :=
  ⟨own home, c.adapter⟩

/-- Tokens are minted once, and no document carries one that was not minted yet. -/
structure Sensible (c : Collection) (s : Database) : Prop where
  mint : Function.Injective c.mint
  inOrder : s.InOrder
  unused : ∀ key r, s.record? key = some r → ∀ n, r.token ≠ c.mint n

/-- The document that a command has taken, by its place, and the record with which it came back: it
carries the owner and the token of the command. -/
def taken? (x : Exchange) : Option ((String × String) × Record) :=
  match x.question, x.reply with
  | .take _ o token, .found (some b) => match Record.ofBson? b with
    | some r => if r.owner = o.owner ∧ r.token = token then some (x.question.key, r) else none
    | none => none
  | _, _ => none

/-- The command has taken the document, which came back with this record. -/
def Takes (x : Exchange) (key : String × String) (r : Record) : Prop := taken? x = some (key, r)

/-- A token and an owner are those of the last command that took the document, or were there from
the start. -/
def Source (s : Database) (xs : List Exchange) (key : String × String) (token owner : String) :
    Prop :=
  (∃ r, s.record? key = some r ∧ r.token = token) ∨
  ∃ newer y older r, xs = newer ++ y :: older ∧ Takes y key r ∧ r.token = token ∧
    r.owner = owner ∧ ∀ x ∈ newer, ∀ r, ¬ Takes x key r

variable {c : Collection} {own : Nat → Options} {s s' : Database} {t : Traffic} {x y : Exchange}
  {xs : List Exchange} {key : String × String} {r : Record} {token owner : String}
  {log newer older : List Entry} {e : Commission String} {past : List (Command × Reply)}

theorem takes_iff : Takes x key r ↔ x.question.key = key ∧
    (∃ collection o, x.question = .take collection o r.token ∧ r.owner = o.owner) ∧
    ∃ b, x.reply = .found (some b) ∧ Record.ofBson? b = some r := by
  unfold Takes taken?
  constructor
  · intro h
    split at h
    next collection o token b hq hreply =>
      split at h
      next r' hb =>
        split at h
        next hours =>
          cases h
          exact ⟨rfl, ⟨collection, o, hours.2 ▸ hq, hours.1⟩, b, hreply, hb⟩
        · cases h
      · cases h
    · cases h
  · rintro ⟨rfl, ⟨collection, o, hq, howner⟩, b, hreply, hb⟩
    simp [hq, hreply, hb, howner]

/-! ## The server -/

theorem served_inOrder (h : s.InOrder) (hs : Served s s' xs) : s'.InOrder :=
  hs.keeps h (fun h hx => Database.inOrder_of_change h (Database.change_of_serve h hx))
    (fun h he => Database.eq_of_elapse he ▸ h)

theorem change_of_handled (h : s.InOrder) (run : Run (clients c own) s t)
    (hx : .handled x ∈ t.log) : Database.Change x.before x.question x.after x.reply := by
  obtain ⟨_, -, hb, _, hserve⟩ := run.exists_served hx
  exact Database.change_of_serve (served_inOrder h hb) hserve

theorem Source.cons (h : Source s xs key token owner) (hx : ∀ r, ¬ Takes x key r) :
    Source s (x :: xs) key token owner := by
  refine h.imp_right ?_
  rintro ⟨newer, y, older, r, rfl, hy, ht, ho, hn⟩
  exact ⟨x :: newer, y, older, r, rfl, hy, ht, ho, List.forall_mem_cons.2 ⟨hx, hn⟩⟩

theorem not_takes_of_key (h : x.question.key ≠ key) (r : Record) : ¬ Takes x key r :=
  fun hx => h (takes_iff.1 hx).1

theorem not_takes_of_reply (h : ∀ b, x.reply ≠ .found (some b)) (r : Record) : ¬ Takes x key r :=
  fun hx => have ⟨_, _, b, hb, _⟩ := takes_iff.1 hx; h b hb

/-- One command keeps the sources. -/
theorem source_of_change {q : Command} {after : Database} {reply : Reply}
    (he : Database.Change x.before q after reply) (hq : x.question = q) (hreply : x.reply = reply)
    (ih : ∀ r, x.before.record? key = some r → Source s xs key r.token r.owner)
    (hr : after.record? key = some r) : Source s (x :: xs) key r.token r.owner := by
  cases he with
  | failed => exact (ih r hr).cons (not_takes_of_reply (by simp [hreply]))
  | @taken collection token o b r' _ hb _ _ howner htoken _ =>
    rw [Database.record?_put] at hr
    split at hr
    next hkey =>
      cases hb.symm.trans hr
      have htakes : Takes x key r := takes_iff.2
        ⟨by rw [hq, hkey]; rfl, ⟨collection, o, by rw [hq, htoken], howner⟩, b, hreply, hb⟩
      exact .inr ⟨[], x, xs, r, rfl, htakes, rfl, rfl, List.forall_mem_nil _⟩
    next hkey =>
      exact (ih r hr).cons (not_takes_of_key (by rw [hq]; exact Ne.symm hkey))
  | @held collection token o b r' hdoc hb hnot =>
    refine (ih r hr).cons ?_
    intro r'' htakes
    obtain ⟨-, ⟨_, o', hq', ho⟩, b', hb', hr''⟩ := takes_iff.1 htakes
    cases hq.symm.trans hq'
    cases hreply.symm.trans hb'
    cases hb.symm.trans hr''
    exact hnot (.inr ho)
  | @extended collection token o b r' hrec howner htoken hb =>
    have hstep : ∀ r, ¬ Takes x key r := not_takes_of_reply (by simp [hreply])
    rw [Database.record?_put] at hr
    split at hr
    next hkey =>
      cases hb.symm.trans hr
      exact (ih r' (hkey ▸ hrec)).cons hstep
    · exact (ih r hr).cons hstep
  | deleted =>
    rw [Database.record?_put] at hr
    split at hr
    · cases hr
    · exact (ih r hr).cons (not_takes_of_reply (by simp [hreply]))
  | unmet => exact (ih r hr).cons (not_takes_of_reply (by simp [hreply]))

/-- **The token and the owner in a document** come from the last command that took it. -/
theorem served_source (h : s.InOrder) (hs : Served s s' xs) (hr : s'.record? key = some r) :
    Source s xs key r.token r.owner := by
  induction hs generalizing r with
  | start => exact .inl ⟨r, hr, rfl⟩
  | @handled xs x _ hs hx ih =>
    have he := Database.change_of_serve (served_inOrder h hs) hx
    exact source_of_change he rfl rfl (fun r hr => ih hr) hr
  | passed _ he ih =>
    rw [Database.eq_of_elapse he] at hr
    exact ih hr

/-! ## Attempts and their tokens -/

/-- A command that has taken a document belongs to the attempt that minted its token. -/
structure TakenBy (c : Collection) (log : List Entry) (e : Commission String)
    (key : String × String) (r : Record) : Prop where
  op : e.op = .acquire
  began : .began e ∈ log
  key : key = (c.name, e.errand.options.name)
  token : r.token = c.mint e.errand.attempts
  owner : r.owner = e.errand.options.owner

theorem Takes.takenBy (h : Takes x key r) (ho : Orderly (rule c) log) (hx : .handled x ∈ log) :
    TakenBy c log x.commission key r := by
  obtain ⟨rfl, ⟨collection, o, hq, hown⟩, -⟩ := takes_iff.1 h
  obtain ⟨hrec, hmay⟩ := ho.handled hx
  have hmay : May c x.commission (.take collection o r.token) := hq ▸ hmay
  rw [hq]
  generalize ht : r.token = token at hmay
  cases hmay with
  | take hop => exact ⟨hop, hrec.began, rfl, ht, hown⟩

theorem Takes.eq {key' : String × String} {r' : Record} (h : Takes x key r)
    (h' : Takes x key' r') : r = r' := by
  cases h.symm.trans h'
  rfl

theorem TakenBy.eq {e' : Commission String} {key' : String × String} {r' : Record}
    (h : TakenBy c log e key r) (h' : TakenBy c log e' key' r') (hm : Function.Injective c.mint)
    (ho : Orderly (rule c) log) (ht : r.token = r'.token) : e = e' :=
  ho.eq_of_attempts h.began h'.began h.op h'.op
    (hm (h.token.symm.trans (ht.trans h'.token)))

/-- The attempt has been granted, and all that it heard before that are collisions. -/
structure GrantedTo (c : Collection) (log : List Entry) (e : Commission String) (token : String)
    (past : List (Command × Reply)) : Prop where
  ended : .ended e past (some token, .acquire (.ok .granted)) ∈ log
  op : e.op = .acquire
  minted : token = c.mint e.errand.attempts
  heard : ∃ q b r rest, past = (q, .found (some b)) :: rest ∧ Record.ofBson? b = some r ∧
    r.token = token ∧ ∀ p ∈ rest, p.2.isCollision = true

theorem grantedTo_of_ended {x : Option String × Answer} (ho : Orderly (rule c) log)
    (he : .ended e past x ∈ log) (hx : x.2 = .acquire (.ok .granted)) :
    ∃ token, x.1 = some token ∧ GrantedTo c log e token past := by
  obtain ⟨hop, htoken, q, b, r, rest, hpast, hb, hr, hrest⟩ := Ends.of_granted (ho.ended he).2 hx
  obtain ⟨token, answer⟩ := x
  cases hx
  cases htoken
  exact ⟨_, rfl, he, hop, rfl, q, b, r, rest, hpast, hb, hr, hrest⟩

/-- Whoever was granted a token has minted it. -/
theorem grantedTo_of_granted {home : Nat} (ho : Orderly (rule c) log)
    (h : Granted log home token) : ∃ e past, e.home = home ∧ GrantedTo c log e token past := by
  obtain ⟨e, past, a, he, hhome, hnew⟩ := h
  have ha : a = .acquire (.ok .granted) :=
    hnew.elim (Ends.granted_of_new (ho.ended he).2 rfl) id
  obtain ⟨token', htoken, hg⟩ := grantedTo_of_ended ho he ha
  cases htoken
  exact ⟨e, past, hhome, hg⟩

theorem GrantedTo.eq {e' : Commission String} {past' : List (Command × Reply)}
    (h : GrantedTo c log e token past) (h' : GrantedTo c log e' token past')
    (hm : Function.Injective c.mint) (ho : Orderly (rule c) log) : e = e' :=
  ho.eq_of_attempts (ho.ended h.ended).1.began (ho.ended h'.ended).1.began h.op h'.op
    (hm (h.minted.symm.trans h'.minted))

theorem GrantedTo.undisturbed (h : GrantedTo c log e token past) : Undisturbed Database past := by
  obtain ⟨q, b, r, rest, rfl, -, -, hrest⟩ := h.heard
  intro q' a hm
  rcases List.mem_cons.1 hm with heq | hm
  · cases heq
    rfl
  · have hc := hrest _ hm
    cases a with
    | failure code _ =>
      show (code != collisionCode) = false
      simpa [Reply.isCollision] using hc
    | found | count | writeFailure => cases hc

theorem exists_takes_of_record (hs : Sensible c s) (hserved : Served s s' xs)
    (hr : s'.record? key = some r) {n : Nat} (ht : r.token = c.mint n) :
    ∃ newer y older r', xs = newer ++ y :: older ∧ Takes y key r' ∧ r'.token = r.token ∧
      r'.owner = r.owner ∧ ∀ x ∈ newer, ∀ r, ¬ Takes x key r := by
  refine (served_source hs.inOrder hserved hr).resolve_left ?_
  rintro ⟨r₀, hr₀, htoken⟩
  exact hs.unused key r₀ hr₀ n (htoken.trans ht)

/-- **The attempt that was granted has taken the document** with its own token. -/
theorem GrantedTo.exists_takes (h : GrantedTo c t.log e token past) (hs : Sensible c s)
    (run : Run (clients c own) s t) :
    ∃ x r, .handled x ∈ t.log ∧ x.commission = e ∧ Takes x (c.name, e.errand.options.name) r ∧
      r.token = token ∧ x.after.record? (c.name, e.errand.options.name) = some r ∧
      r.expiredAt = x.before.now + e.errand.options.wholeMillis := by
  have sound := run.sound (rule_binds c own)
  obtain ⟨q, b, r, rest, rfl, hb, hr, -⟩ := h.heard
  have hrec := (sound.log.ended h.ended).1
  obtain ⟨x, hx, rfl, -, hxb⟩ := (hrec.heard _ _ List.mem_cons_self).resolve_left
    (by simp [Host.isFault, Reply.isFault])
  obtain ⟨collection, o, token', r', hq, hb', hcase⟩ :=
    (change_of_handled hs.inOrder run hx).of_found hxb
  cases hb.symm.trans hb'
  have hmay : May c x.commission (.take collection o token') := hq ▸ (sound.log.handled hx).2
  cases hmay with
  | take hop =>
    rcases hcase with ⟨hafter, howner, htoken, hend⟩ | ⟨hheld, hnot⟩
    · have htakes : Takes x (c.name, x.commission.errand.options.name) r := takes_iff.2
        ⟨by rw [hq]; rfl, ⟨_, _, by rw [hq, htoken], howner⟩, b, hxb, hb⟩
      refine ⟨x, r, hx, rfl, htakes, hr, ?_, hend⟩
      rw [hafter, Database.record?_put, if_pos rfl]
      exact hb
    · -- the token in the document is ours, so is the owner, and the document may be taken
      obtain ⟨ys, hys, hserved, -⟩ := run.exists_served hx
      obtain ⟨newer, y, older, r', rfl, hy, htoken, howner, -⟩ :=
        exists_takes_of_record hs hserved hheld (hr.trans h.minted)
      have hmem : y ∈ exchanges t.log := hys (by simp)
      have htaken := hy.takenBy sound.log (mem_exchanges.1 hmem)
      have heq : y.commission = x.commission :=
        sound.log.eq_of_attempts htaken.began hrec.began htaken.op hop
          (hs.mint (htaken.token.symm.trans (htoken.trans (hr.trans h.minted))))
      exact absurd (.inr (howner.symm.trans (heq ▸ htaken.owner))) hnot

theorem mem_tail_of_mem {α : Type} {a b p : α} {l m rest : List α} (h : l ++ a :: m = p :: rest)
    (hb : b ∈ m) : b ∈ rest := by
  cases l with
  | nil =>
    cases h
    exact hb
  | cons _ l =>
    cases h
    simp [hb]

/-- **An attempt that was granted has taken the document once.** -/
theorem GrantedTo.not_takes_twice (h : GrantedTo c t.log e token past) (hs : Sensible c s)
    (run : Run (clients c own) s t) {key' : String × String} {r' : Record}
    {newer older : List Exchange} (hxs : exchanges t.log = newer ++ y :: older)
    (hy : Takes y key r) (hx : x ∈ older) (hx' : Takes x key' r') (ht : r.token = token)
    (ht' : r'.token = token) : False := by
  have sound := run.sound (rule_binds c own)
  have hbegan := (sound.log.ended h.ended).1.began
  have own_commission : ∀ {z : Exchange} {key : String × String} {r : Record},
      z ∈ exchanges t.log → Takes z key r → r.token = token → z.commission = e := by
    intro z key r hz hzt ht
    have hz := hzt.takenBy sound.log (mem_exchanges.1 hz)
    exact sound.log.eq_of_attempts hz.began hbegan hz.op h.op
      (hs.mint (hz.token.symm.trans (ht.trans h.minted)))
  have hye : y.commission = e := own_commission (by simp [hxs]) hy ht
  have hxe : x.commission = e := own_commission (by simp [hxs, hx]) hx' ht'
  have hsaid := run.said_of_ended (rule_binds c own) (fun i => plain_adapter c) h.ended
    h.undisturbed
  obtain ⟨q, b, r₀, rest, hpast, -, -, hrest⟩ := h.heard
  rw [said, hxs, List.filterMap_append, List.filterMap_cons, hye, if_pos rfl, hpast] at hsaid
  have hmem : (x.question, x.reply) ∈ older.filterMap fun z : Exchange =>
      if z.commission.errand.calls = e.errand.calls then some (z.question, z.reply) else none :=
    List.mem_filterMap.2 ⟨x, hx, by rw [hxe, if_pos rfl]⟩
  obtain ⟨-, -, b', hb', -⟩ := takes_iff.1 hx'
  have hcollision := hrest _ (mem_tail_of_mem hsaid hmem)
  simp [hb', Reply.isCollision] at hcollision

/-! ## What the clients are told -/

/-- After another command has taken the document, a refresh with the older token does not count
it. -/
theorem GrantedTo.not_counted (h : GrantedTo c t.log e token past) (hs : Sensible c s)
    (run : Run (clients c own) s t) {r' : Record} {z : Exchange}
    {newest newer older : List Exchange}
    (hxs : exchanges t.log = newest ++ z :: (newer ++ y :: older)) (hx : x ∈ older)
    (hx' : Takes x key r) (ht : r.token = token) (hy : Takes y key r') (hne : r'.token ≠ token)
    {rz : Record} (hz : z.before.record? key = some rz) : rz.token ≠ token := by
  intro hrz
  have hserved := run.served
  rw [hxs] at hserved
  obtain ⟨newer', w, older', rw', hxs', hw, htoken, -, hlast⟩ :=
    exists_takes_of_record hs hserved.split.1 hz (hrz.trans h.minted)
  have hwt : rw'.token = token := htoken.trans hrz
  have hwy : w ≠ y := by
    rintro rfl
    exact hne (hy.eq hw ▸ hwt)
  -- nothing took the document after `w`, so `w` is later than `y`, and than `x`
  have hlater : x ∈ older' := by
    rcases List.append_eq_append_iff.1 hxs' with ⟨l, rfl, hl⟩ | ⟨l, rfl, hl⟩
    · cases l with
      | nil => exact absurd (List.cons.inj hl).1.symm hwy
      | cons v l =>
        cases hl
        exact absurd hy (hlast y (by simp) r')
    · cases l with
      | nil => exact absurd (List.cons.inj hl).1 hwy
      | cons v l =>
        cases hl
        simp [hx]
  have hsplit : exchanges t.log = (newest ++ z :: newer') ++ w :: older' := by
    rw [hxs, hxs', List.append_assoc, List.cons_append]
  exact h.not_takes_twice hs run hsplit hw hlater hx' hwt ht

/-- **What a refresh is told** when another command has taken the document before the server has
handled its own. -/
theorem GrantedTo.lost_of_taken (h : GrantedTo c t.log e token past) (hs : Sensible c s)
    (run : Run (clients c own) s t) {r' : Record} {newer older : List Exchange}
    (hxs : exchanges t.log = newer ++ y :: older) (hx : x ∈ older) (hx' : Takes x key r)
    (ht : r.token = token) (hy : Takes y key r') (hne : r'.token ≠ token)
    {e' : Commission String} {past' : List (Command × Reply)} {token' : Option String}
    {result : Except LockError Unit} (he' : .ended e' past' (token', .refresh result) ∈ t.log)
    (hkey : (c.name, e'.errand.options.name) = key) (htoken : e'.errand.token = some token)
    (hlate : ∀ z ∈ older, z.commission ≠ e') :
    result = .error (.lost (.document e'.errand.options.name)) ∨
      ∃ q a, (q, a) ∈ past' ∧ Host.isFault Database a = true := by
  have sound := run.sound (rule_binds c own)
  obtain ⟨hrec, hends⟩ := sound.log.ended he'
  obtain ⟨reply, rfl, hcase⟩ := Ends.of_refresh hends rfl htoken
  rcases hrec.heard _ _ List.mem_cons_self with hfault | ⟨z, hz, rfl, hzq, hzr⟩
  · exact .inr ⟨_, _, List.mem_cons_self, hfault⟩
  have hchange := change_of_handled hs.inOrder run hz
  rcases hcase with ⟨n, hreply, -⟩ | ⟨-, hresult⟩ | ⟨error, herror⟩
  · obtain ⟨rz, hrz, -, hrztoken, -⟩ := hchange.of_count hzq (hzr.trans hreply)
    have hmem : z ∈ newer ++ y :: older := hxs ▸ mem_exchanges.2 hz
    have hnewer : z ∈ newer := by
      rcases List.mem_append.1 hmem with hm | hm
      · exact hm
      · rcases List.mem_cons.1 hm with rfl | hm
        · obtain ⟨-, ⟨_, _, hq, -⟩, -⟩ := takes_iff.1 hy
          cases hzq.symm.trans hq
        · exact absurd rfl (hlate z hm)
    obtain ⟨newest, newer', rfl⟩ := List.append_of_mem hnewer
    rw [List.append_assoc, List.cons_append] at hxs
    exact absurd hrztoken (h.not_counted hs run hxs hx hx' ht hy hne (hkey ▸ hrz))
  · exact .inl hresult
  · refine .inr ⟨_, _, List.mem_cons_self, ?_⟩
    rw [← hzr] at herror ⊢
    exact hchange.isFault_of_error hzq herror

/-- **One acquisition at a time**, however the commands of all clients are interleaved. A token is
held by one client at most. An attempt that is granted has taken the document, which then carries
its owner, its token and the end of its lease; the token is stored. A document that has not ended,
and is another owner's, is not touched by an attempt. A refresh is told that all is well only if the
document carries its token, and only a release deletes a document, with the token in it. When
another command has taken the document, a refresh of the earlier acquisition is told of its loss,
if no failure comes in between. -/
theorem exclusive_document (h : Sensible c s) (run : Run (clients c own) s t) :
    (∀ i j token, t.HasHeld i token → t.HasHeld j token → i = j) ∧
    (∀ e past token, .ended e past (token, .acquire (.ok .granted)) ∈ t.log →
      ∃ x r, .handled x ∈ t.log ∧ x.commission = e ∧
        Takes x (c.name, e.errand.options.name) r ∧ token = some r.token ∧
        x.after.record? (c.name, e.errand.options.name) = some r ∧
        r.owner = e.errand.options.owner ∧
        r.expiredAt = x.before.now + e.errand.options.wholeMillis) ∧
    (∀ e past token older, t.log = .ended e past (token, .acquire (.ok .granted)) :: older →
      t.tokens e.home = token) ∧
    (∀ x collection o token r, .handled x ∈ t.log → x.question = .take collection o token →
      x.before.record? (collection, o.name) = some r → (x.before.now : Int) < r.expiredAt →
      r.owner ≠ o.owner → x.after = x.before) ∧
    (∀ e past token, .ended e past (token, .refresh (.ok ())) ∈ t.log →
      ∃ x r, .handled x ∈ t.log ∧ x.commission = e ∧ e.errand.token = some r.token ∧
        x.before.record? (c.name, e.errand.options.name) = some r) ∧
    (∀ x key b, .handled x ∈ t.log → x.before.documents key = some b →
      x.after.documents key = none →
      x.commission.op = .release ∧ ∃ r, x.before.record? key = some r ∧
        x.commission.errand.token = some r.token) ∧
    ∀ (newer : List Exchange) (y : Exchange) (older : List Exchange),
      exchanges t.log = newer ++ y :: older → ∀ x ∈ older, ∀ key r r', Takes x key r →
      Takes y key r' → r'.token ≠ r.token →
      ∀ e past token result, .ended e past (token, .refresh result) ∈ t.log →
      e.errand.token = some r.token → (c.name, e.errand.options.name) = key →
      (∀ z ∈ older, z.commission ≠ e) →
      result = .error (.lost (.document e.errand.options.name)) ∨
        ∃ q a, (q, a) ∈ past ∧ Host.isFault Database a = true := by
  have sound := run.sound (rule_binds c own)
  refine ⟨?_, ?_, ?_, ?_, ?_, ?_, ?_⟩
  · intro i j token hi hj
    obtain ⟨e, past, rfl, he⟩ := grantedTo_of_granted sound.log (sound.granted hi)
    obtain ⟨e', past', rfl, he'⟩ := grantedTo_of_granted sound.log (sound.granted hj)
    rw [he.eq he' h.mint sound.log]
  · intro e past token he
    obtain ⟨token', rfl, hg⟩ := grantedTo_of_ended sound.log he rfl
    obtain ⟨x, r, hx, rfl, htakes, rfl, hrec, hend⟩ := hg.exists_takes h run
    exact ⟨x, r, hx, rfl, htakes, rfl, hrec, (htakes.takenBy sound.log hx).owner, hend⟩
  · intro e past token older hlog
    obtain ⟨token', rfl, -⟩ := grantedTo_of_ended sound.log (hlog ▸ List.mem_cons_self) rfl
    exact run.tokens_of_granted hlog
  · intro x collection o token r hx hq hr hlive howner
    exact (change_of_handled h.inOrder run hx).eq_of_held hq hr
      (not_or.2 ⟨Int.not_le.2 hlive, howner⟩)
  · intro e past token he
    obtain ⟨hrec, hends⟩ := sound.log.ended he
    obtain ⟨token', n, htoken, rfl⟩ := Ends.of_kept hends rfl
    obtain ⟨x, hx, rfl, hq, hreply⟩ := (hrec.heard _ _ List.mem_cons_self).resolve_left
      (by simp [Host.isFault, Reply.isFault])
    obtain ⟨r, hr, -, rfl, -⟩ := (change_of_handled h.inOrder run hx).of_count hq hreply
    exact ⟨x, r, hx, rfl, htoken, hr⟩
  · intro x key b hx hb hgone
    obtain ⟨collection, o, r, hq, -, hr⟩ :=
      (change_of_handled h.inOrder run hx).of_gone hb hgone
    have hmay : May c x.commission (.delete collection o r.token) := hq ▸ (sound.log.handled hx).2
    generalize htoken : r.token = token at hmay
    cases hmay with
    | delete hop ht => exact ⟨hop, r, hr, ht.trans (congrArg some htoken.symm)⟩
  · intro newer y older hxs x hx key r r' hxr hyr' hne e past token result he htoken hkey hlate
    have hb := (sound.log.ended he).1.began
    obtain ⟨e', past', -, hg⟩ := grantedTo_of_granted sound.log (sound.log.granted hb htoken)
    exact hg.lost_of_taken h run hxs hx hxr rfl hyr' hne he hkey htoken hlate

/-- A collection whose tokens grow by a letter with every attempt. -/
def growing : Collection where
  mint n := String.ofList (List.replicate (n + 1) 'x')

theorem sensible_growing : Sensible growing { now := 0 } where
  mint m n h := by simpa using congrArg List.length (String.ofList_injective h)
  inOrder := nofun
  unused := nofun

/-- What two clients of one owner call their lock. -/
def jobOf (owner : String) : Options := { name := "job", owner }

/-- Two clients of one owner take a document one after the other, and the first one refreshes it. -/
def rebound : List (Move Reply (Option (Int × String)) Nat) :=
  [.begin 0 (jobOf "a") .acquire, .reach 0 none, .hear 0, .finish 0, .pass 1000,
    .begin 1 (jobOf "a") .acquire, .reach 0 none, .hear 0, .finish 0,
    .begin 0 (jobOf "a") .refresh, .reach 0 none, .hear 0, .finish 0]

/-- The document was taken twice, and then refreshed with the first token, without a failure. -/
def isRebound (t : Traffic) : Bool :=
  (exchanges t.log).map taken? =
    [none, some (("locks", "job"), ⟨"job", "job", "a", "xx", 11000, 0, 1000⟩),
      some (("locks", "job"), ⟨"job", "job", "a", "x", 10000, 0, 0⟩)] &&
  (exchanges t.log).map (·.commission.op) = [.refresh, .acquire, .acquire] &&
  t.log.any fun
    | .ended e past (_, .refresh _) => e.op = .refresh && e.errand.token = some "x" &&
      e.errand.options.name = "job" && past.all fun p => !p.2.isFault
    | _ => false

theorem exclusive_document_rebound :
    ∃ (t : Traffic) (z y x : Exchange) (r r' : Record) (e : Commission String)
      (past : List (Command × Reply)) (token : Option String),
    Run (clients growing fun _ => jobOf "a") { now := 0 } t ∧ exchanges t.log = [z, y, x] ∧
    Takes x ("locks", "job") r ∧ Takes y ("locks", "job") r' ∧ r.owner = r'.owner ∧
    e.errand.token = some r.token ∧
    .ended e past (token, .refresh (.error (.lost (.document "job")))) ∈ t.log := by
  obtain ⟨t, run, hp⟩ : ∃ t, Run (clients growing fun _ => jobOf "a") { now := 0 } t ∧
    isRebound t = true := exists_run rebound (by decide +kernel)
  simp only [isRebound, Bool.and_eq_true, decide_eq_true_iff, List.any_eq_true] at hp
  obtain ⟨⟨htaken, hops⟩, entry, hentry, hrefresh⟩ := hp
  split at hrefresh
  next e past token result =>
    simp only [Bool.and_eq_true, decide_eq_true_iff, List.all_eq_true] at hrefresh
    obtain ⟨⟨⟨hop, htoken⟩, hname⟩, hcalm⟩ := hrefresh
    obtain ⟨z, ys, hz, -, hys⟩ := List.map_eq_cons_iff.1 htaken
    obtain ⟨y, xs, rfl, hy, hxs⟩ := List.map_eq_cons_iff.1 hys
    obtain ⟨x, ws, rfl, hx, hws⟩ := List.map_eq_cons_iff.1 hxs
    cases List.map_eq_nil_iff.1 hws
    rw [hz] at hops
    have hlate : ∀ w ∈ [x], w.commission ≠ e := by
      rintro w hw rfl
      cases List.mem_singleton.1 hw
      simp [hop] at hops
    obtain ⟨-, -, -, -, -, -, lost⟩ := exclusive_document sensible_growing run
    have calm : ¬ ∃ q a, (q, a) ∈ past ∧ Host.isFault Database a = true := by
      rintro ⟨q, a, hm, hfault : a.isFault = true⟩
      have := hcalm _ hm
      simp [hfault] at this
    have hlost := (lost [z] y [x] hz x List.mem_cons_self _ _ _ hx hy (by decide) e past token
      result hentry htoken (by rw [hname]; rfl) hlate).resolve_right calm
    rw [hname] at hlost
    exact ⟨t, z, y, x, _, _, e, past, token, run, hz, hx, hy, rfl, htoken, hlost ▸ hentry⟩
  · cases hrefresh

end LeaseLock.Mongo
