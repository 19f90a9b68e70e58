import LeaseLock.Mongo.Adapter
import LeaseLock.Proofs.Mongo.Updates
import LeaseLock.Proofs.Remote.Network
import Mathlib.Logic.Function.Basic

/-!
# A database of documents

**The server** (`Database`). It runs each command as one step, by its own clock. Taking a document
that is not there makes one from the filter of the command. A command to take one may collide with
another that has just made it, and a command that cannot be carried out fails.

**Documents in order** (`InOrder`). Every document is that of a lock, and carries its own name.

**One command** (`Change`): everything a command can do to a database in order. Main results:
`change_of_serve` and `inOrder_of_change`.
-/

namespace LeaseLock.Mongo

structure Database where
  /-- The time in milliseconds since the epoch. -/
  now : Nat
  /-- The documents, by collection and name. -/
  documents : String × String → Option Bson := fun _ => none

namespace Bson

/-- The document has all the fields of the filter. -/
def meets (b filter : Bson) : Bool :=
  match filter with
  | document fs => fs.all fun f => match b.field? f.1 with
    | some v => v.order? f.2 == some .eq
    | none => false
  | _ => false

end Bson

/-- The document that a command is about, by collection and name. -/
def Command.key : Command → String × String
  | .take collection o _ | .extend collection o _ | .delete collection o _ => (collection, o.name)

/-- The filter of the command is met by a record with the command's name. -/
def Command.Meets (c : Command) (r : Record) : Prop :=
  match c with
  | .take .. => True
  | .extend _ o token => r.owner = o.owner ∧ r.token = token
  | .delete _ _ token => r.token = token

namespace Database

/-- Puts a document in its place, or none. -/
def put (db : Database) (key : String × String) (b : Option Bson) : Database :=
  { db with documents := Function.update db.documents key b }

/-- The document that meets the filter of a command. -/
def find? (db : Database) (c : Command) : Option Bson :=
  (db.documents c.key).filter (·.meets c.filter)

/-- The record in a place. -/
def record? (db : Database) (key : String × String) : Option Record :=
  (db.documents key).bind Record.ofBson?

/-- Carries a command out, if all that it computes can be computed. -/
def execute (db : Database) (c : Command) : Option (Database × Reply) :=
  match c, db.find? c with
  | .take _ o token, found =>
    (update? db.now (found.getD c.filter) (takePipeline o token)).map fun b =>
      (db.put c.key (some b), .found (some b))
  | .extend _ o _, some b =>
    (update? db.now b (keepPipeline o)).map fun b => (db.put c.key (some b), .count 1)
  | .delete _ _ _, some _ => some (db.put c.key none, .count 1)
  | .extend _ _ _, none | .delete _ _ _, none => some (db, .count 0)

/-- The command can collide with another that makes the same document. -/
def canCollide : Command → Bool
  | .take .. => true
  | .extend .. | .delete .. => false

/-- The command can fail with the code: it collides, or it cannot be carried out. -/
def canFail (db : Database) (c : Command) (code : Int) : Bool :=
  if code = collisionCode then canCollide c else (db.execute c).isNone

/-- Runs a command, or lets it fail with a code and a report. -/
def serve (db : Database) (c : Command) : Option (Int × String) → Option (Database × Reply)
  | none => db.execute c
  | some (code, report) => if db.canFail c code then some (db, .failure code report) else none

/-- Time passes until an instant. -/
def elapse (db : Database) (til : Nat) : Option Database :=
  if db.now ≤ til then some { db with now := til } else none

end Database

/-- A failure, if it is not the one that makes a client try again. -/
def Reply.isFault : Reply → Bool
  | .failure code _ => code != collisionCode
  | .writeFailure _ => true
  | .found _ | .count _ => false

instance : Host Database Command Reply (Option (Int × String)) Nat where
  serve := Database.serve
  pass := Database.elapse
  isFault := Reply.isFault

namespace Database

variable {db db' : Database} {c : Command} {reply : Reply} {key : String × String} {r : Record}
  {o : Options} {collection token : String} {choice : Option (Int × String)}

theorem eq_of_elapse {til : Nat} (h : db.elapse til = some db') : db' = { db with now := til } := by
  unfold elapse at h
  split at h
  · cases h
    rfl
  · cases h

/-- Every document is that of a lock, and is in its place. -/
def InOrder (db : Database) : Prop :=
  ∀ key b, db.documents key = some b →
    ∃ r, Record.ofBson? b = some r ∧ r.id = key.2 ∧ r.name = key.2

/-- What a command may do. -/
inductive Change (db : Database) : Command → Database → Reply → Prop
  | failed {c : Command} {code : Int} {report : String} :
      (code = collisionCode → canCollide c = true) → Change db c db (.failure code report)
  /-- The document is taken, or made. -/
  | taken {collection token : String} {o : Options} {b : Bson} {r : Record} :
      (∀ r, db.record? (collection, o.name) = some r → r.IsTakeable o db.now) →
      Record.ofBson? b = some r → r.id = o.name → r.name = o.name → r.owner = o.owner →
      r.token = token → r.expiredAt = db.now + o.wholeMillis →
      Change db (.take collection o token) (db.put (collection, o.name) (some b)) (.found (some b))
  /-- The document stays with its owner. -/
  | held {collection token : String} {o : Options} {b : Bson} {r : Record} :
      db.documents (collection, o.name) = some b → Record.ofBson? b = some r →
      ¬ r.IsTakeable o db.now → Change db (.take collection o token) db (.found (some b))
  | extended {collection token : String} {o : Options} {b : Bson} {r : Record} :
      db.record? (collection, o.name) = some r → r.owner = o.owner → r.token = token →
      Record.ofBson? b = some (r.kept o db.now) →
      Change db (.extend collection o token) (db.put (collection, o.name) (some b)) (.count 1)
  | deleted {collection token : String} {o : Options} {r : Record} :
      db.record? (collection, o.name) = some r → r.token = token →
      Change db (.delete collection o token) (db.put (collection, o.name) none) (.count 1)
  /-- No document meets the filter. -/
  | unmet {c : Command} : (∀ r, db.record? c.key = some r → ¬ c.Meets r) → Change db c db (.count 0)

theorem equal_text {b : Bson} {name s t : String} (h : b.textField? name = some s) :
    (match b.field? name with
      | some v => v.order? (.text t) == some .eq
      | none => false) = decide (s = t) := by
  rw [textField?_eq_some.1 h]
  show (some (compare s t) == some .eq) = _
  rw [Bool.eq_iff_iff, beq_iff_eq, Option.some_inj, Std.compare_eq_iff_eq, decide_eq_true_iff]

theorem meets_filter {b : Bson} (hr : Record.ofBson? b = some r) (hid : r.id = c.key.2) :
    b.meets c.filter = true ↔ c.Meets r := by
  obtain ⟨hid', -, howner, htoken, -⟩ := ofBson?_eq_some.1 hr
  cases c <;>
    simp_all [Bson.meets, Command.filter, Bson.single, Command.Meets, Command.key, equal_text hid',
      equal_text howner, equal_text htoken]

theorem InOrder.find?_eq_some (h : db.InOrder) {b : Bson} (hb : db.find? c = some b) :
    db.documents c.key = some b ∧ ∃ r, Record.ofBson? b = some r ∧ r.id = c.key.2 ∧
      r.name = c.key.2 ∧ c.Meets r := by
  obtain ⟨hdoc, hmeets⟩ := Option.filter_eq_some_iff.1 hb
  obtain ⟨r, hr, hid, hname⟩ := h _ b hdoc
  exact ⟨hdoc, r, hr, hid, hname, (meets_filter hr hid).1 hmeets⟩

theorem InOrder.not_meets (h : db.InOrder) (hb : db.find? c = none)
    (hr : db.record? c.key = some r) :
    ¬ c.Meets r := by
  obtain ⟨b, hdoc, hrec⟩ := Option.bind_eq_some_iff.1 hr
  obtain ⟨r', hr', hid, -⟩ := h _ b hdoc
  cases hrec.symm.trans hr'
  intro hm
  have hmeets := (meets_filter hrec hid).2 hm
  simp [find?, hdoc, hmeets] at hb

theorem put_self {b : Bson} (h : db.documents key = some b) : db.put key (some b) = db := by
  unfold put
  rw [← h, Function.update_eq_self]

theorem change_of_take (h : db.InOrder)
    (hs : db.execute (.take collection o token) = some (db', reply)) :
    Change db (.take collection o token) db' reply := by
  cases hf : db.find? (.take collection o token) with
  | none =>
    simp only [execute, hf, Option.getD_none] at hs
    obtain ⟨b, hu, heq⟩ := Option.map_eq_some_iff.1 hs
    cases heq
    have hr := record_of_made (Int.natCast_nonneg _) hu
    exact .taken (fun r hr => absurd trivial (h.not_meets hf hr)) hr rfl rfl rfl rfl rfl
  | some b₀ =>
    simp only [execute, hf, Option.getD_some] at hs
    obtain ⟨b, hu, heq⟩ := Option.map_eq_some_iff.1 hs
    cases heq
    obtain ⟨hdoc, r, hr, hid, hname, -⟩ := h.find?_eq_some hf
    by_cases ht : r.IsTakeable o db.now
    · refine .taken (fun r' hr' => ?_) (record_of_taken hr ht hu) hid rfl rfl rfl rfl
      have hrec : db.record? (collection, o.name) = some r :=
        Option.bind_eq_some_iff.2 ⟨_, hdoc, hr⟩
      cases hrec.symm.trans hr'
      exact ht
    · cases eq_of_not_takeable hr ht hname hu
      rw [put_self hdoc]
      exact .held hdoc hr ht

theorem change_of_extend (h : db.InOrder)
    (hs : db.execute (.extend collection o token) = some (db', reply)) :
    Change db (.extend collection o token) db' reply := by
  cases hf : db.find? (.extend collection o token) with
  | none =>
    simp only [execute, hf] at hs
    cases hs
    exact .unmet fun r hr => h.not_meets hf hr
  | some b₀ =>
    simp only [execute, hf] at hs
    obtain ⟨b, hu, heq⟩ := Option.map_eq_some_iff.1 hs
    cases heq
    obtain ⟨hdoc, r, hr, -, -, howner, htoken⟩ := h.find?_eq_some hf
    exact .extended (Option.bind_eq_some_iff.2 ⟨_, hdoc, hr⟩) howner htoken (record_of_kept hr hu)

theorem change_of_delete (h : db.InOrder)
    (hs : db.execute (.delete collection o token) = some (db', reply)) :
    Change db (.delete collection o token) db' reply := by
  cases hf : db.find? (.delete collection o token) with
  | none =>
    simp only [execute, hf] at hs
    cases hs
    exact .unmet fun r hr => h.not_meets hf hr
  | some b₀ =>
    simp only [execute, hf] at hs
    cases hs
    obtain ⟨hdoc, r, hr, -, -, htoken⟩ := h.find?_eq_some hf
    exact .deleted (Option.bind_eq_some_iff.2 ⟨_, hdoc, hr⟩) htoken

/-- **What a command can do** to a database in order. -/
theorem change_of_serve (h : db.InOrder) (hs : db.serve c choice = some (db', reply)) :
    Change db c db' reply := by
  cases choice with
  | none =>
    cases c with
    | take => exact change_of_take h hs
    | extend => exact change_of_extend h hs
    | delete => exact change_of_delete h hs
  | some failure =>
    obtain ⟨code, report⟩ := failure
    simp only [serve] at hs
    split at hs
    next hfail =>
      cases hs
      refine .failed fun hcode => ?_
      rwa [canFail, if_pos hcode] at hfail
    · cases hs

@[simp] theorem put_documents (db : Database) (key key' : String × String) (b : Option Bson) :
    (db.put key b).documents key' = if key' = key then b else db.documents key' :=
  Function.update_apply ..

theorem record?_put (db : Database) (key key' : String × String) (b : Option Bson) :
    (db.put key b).record? key' =
      if key' = key then b.bind Record.ofBson? else db.record? key' := by
  unfold record?
  rw [put_documents]
  split <;> rfl

/-- A document that comes back was taken, or stays with its owner. -/
theorem Change.of_found {b : Bson} (h : Change db c db' reply) (hb : reply = .found (some b)) :
    ∃ collection o token r, c = .take collection o token ∧ Record.ofBson? b = some r ∧
      ((db' = db.put (collection, o.name) (some b) ∧ r.owner = o.owner ∧ r.token = token ∧
          r.expiredAt = db.now + o.wholeMillis) ∨
        (db.record? (collection, o.name) = some r ∧ ¬ r.IsTakeable o db.now)) := by
  cases h with
  | taken _ hr _ _ howner htoken hend =>
    cases hb
    exact ⟨_, _, _, _, rfl, hr, .inl ⟨rfl, howner, htoken, hend⟩⟩
  | held hdoc hr hnot =>
    cases hb
    exact ⟨_, _, _, _, rfl, hr, .inr ⟨Option.bind_eq_some_iff.2 ⟨_, hdoc, hr⟩, hnot⟩⟩
  | failed | extended | deleted | unmet => cases hb

theorem Change.eq_of_held (h : Change db c db' reply) (hc : c = .take collection o token)
    (hr : db.record? (collection, o.name) = some r) (hn : ¬ r.IsTakeable o db.now) : db' = db := by
  cases h with
  | taken htake =>
    cases hc
    exact absurd (htake r hr) hn
  | failed | held | unmet => rfl
  | extended | deleted => cases hc

/-- A document that is counted by its owner's command carries the token. -/
theorem Change.of_count {n : Nat} (h : Change db c db' reply) (hc : c = .extend collection o token)
    (hn : reply = .count (n + 1)) :
    ∃ r, db.record? (collection, o.name) = some r ∧ r.owner = o.owner ∧ r.token = token ∧
      db'.record? (collection, o.name) = some (r.kept o db.now) := by
  cases h with
  | extended hr howner htoken hb =>
    cases hc
    refine ⟨_, hr, howner, htoken, ?_⟩
    rw [record?_put, if_pos rfl]
    exact hb
  | failed | unmet | taken | held => cases hn
  | deleted => cases hc

/-- What is not counted for an owner's command is a failure that its client must not meet by trying
again. -/
theorem Change.isFault_of_error {error : LockError} (h : Change db c db' reply)
    (hc : c = .extend collection o token) (he : reply.counted = .error error) :
    reply.isFault = true := by
  cases h with
  | failed hcode =>
    subst hc
    exact bne_iff_ne.2 fun hcollision => Bool.false_ne_true (hcode hcollision)
  | taken | held => cases hc
  | extended | deleted | unmet => cases he

/-- Only a command that deletes makes a document go, and it names the token in it. -/
theorem Change.of_gone {b : Bson} (h : Change db c db' reply) (hb : db.documents key = some b)
    (hn : db'.documents key = none) :
    ∃ collection o r, c = .delete collection o r.token ∧ key = (collection, o.name) ∧
      db.record? key = some r := by
  cases h with
  | failed | held | unmet =>
    rw [hb] at hn
    cases hn
  | taken | extended =>
    rw [put_documents] at hn
    split at hn
    · cases hn
    · rw [hb] at hn
      cases hn
  | deleted hr htoken =>
    rw [put_documents] at hn
    split at hn
    next hkey =>
      subst hkey
      subst htoken
      exact ⟨_, _, _, rfl, rfl, hr⟩
    · rw [hb] at hn
      cases hn

theorem InOrder.put_none (h : db.InOrder) (key : String × String) : (db.put key none).InOrder := by
  intro key' b hb
  rw [put_documents] at hb
  split at hb
  · cases hb
  · exact h key' b hb

theorem InOrder.put_some (h : db.InOrder) {b : Bson} (hr : Record.ofBson? b = some r)
    (hid : r.id = key.2) (hname : r.name = key.2) : (db.put key (some b)).InOrder := by
  intro key' b' hb
  rw [put_documents] at hb
  split at hb
  next hkey =>
    cases hb
    exact ⟨r, hr, hkey ▸ hid, hkey ▸ hname⟩
  · exact h key' b' hb

/-- **The documents stay in order.** -/
theorem inOrder_of_change (h : db.InOrder) (he : Change db c db' reply) : db'.InOrder := by
  cases he with
  | failed | held | unmet => exact h
  | taken _ hr hid hname => exact h.put_some hr hid hname
  | extended hrec _ _ hr =>
    obtain ⟨b, hdoc, hr'⟩ := Option.bind_eq_some_iff.1 hrec
    obtain ⟨r', hr'', hid, hname⟩ := h _ b hdoc
    cases hr'.symm.trans hr''
    exact h.put_some hr hid hname
  | deleted => exact h.put_none _

end Database

end LeaseLock.Mongo
