import LeaseLock.Redis.Adapter
import LeaseLock.Proofs.Remote.Talks
import LeaseLock.Proofs.Locker.History

/-!
# What the operations on a key say

**The rule** (`Rule`). A command of an operation, the reply to it, and what the operation comes to
with that reply. Only our own key is touched; only a key that was set, or extended by one, renews
the record; and who is in the way was read off the key.

Main result: `heeds_adapter`. Whatever the server replies, every operation keeps the rule.
-/

namespace LeaseLock.Redis

open Talk

/-- The commands that an operation sends about a key. -/
inductive Ours (key : String) (o : Options) : Command → Prop
  | set : Ours key o (.setAbsent key o.owner o.wholeSecs)
  | get : Ours key o (.get key)
  | script (s : Script) : Ours key o (.eval s key o.owner)

structure Rule (key : String) (o : Options) (q : Command) (reply : Reply)
    (outcome : Option Answer) : Prop where
  ours : Ours key o q
  renews : ∀ a, outcome = some a → a.renews = true →
    q = .setAbsent key o.owner o.wholeSecs ∧ (∃ text, reply.optionalText = .ok (some text)) ∨
      q = .eval (.extend o.wholeSecs) key o.owner ∧ reply.asNumber = .ok 1
  occupied : ∀ owner, outcome = some (.acquire (.ok (.occupied (some owner)))) →
    q = .get key ∧ reply.optionalText = .ok (some owner) ∧ owner ≠ o.owner

variable {key : String} {o : Options} {q : Command} {reply : Reply} {outcome : Option Answer}

/-- Neither renews the record nor names somebody in the way. -/
def Neutral (a : Answer) : Prop :=
  a.renews = false ∧ ∀ owner, a ≠ .acquire (.ok (.occupied (some owner)))

theorem Ours.rule_of_neutral (hq : Ours key o q) (hr : ∀ a, outcome = some a → Neutral a) :
    Rule key o q reply outcome where
  ours := hq
  renews a h ha := by
    rw [(hr a h).1] at ha
    cases ha
  occupied owner h := absurd rfl ((hr _ h).2 owner)

theorem Ours.rule_none (hq : Ours key o q) : Rule key o q reply none :=
  hq.rule_of_neutral nofun

theorem Ours.rule_some (hq : Ours key o q) {a : Answer} (ha : Neutral a) :
    Rule key o q reply (some a) :=
  hq.rule_of_neutral fun _ h => Option.some.inj h ▸ ha

/-- A key that was set renews the record, whatever the operation is. -/
theorem rule_of_set {text : String} {a : Answer} (hr : reply.optionalText = .ok (some text))
    (ha : ∀ owner, a ≠ .acquire (.ok (.occupied (some owner)))) :
    Rule key o (.setAbsent key o.owner o.wholeSecs) reply (some a) where
  ours := .set
  renews _ _ _ := .inl ⟨rfl, text, hr⟩
  occupied owner h := absurd (Option.some.inj h) (ha owner)

theorem rule_of_extend {a : Answer} (hr : reply.asNumber = .ok 1)
    (ha : ∀ owner, a ≠ .acquire (.ok (.occupied (some owner)))) :
    Rule key o (.eval (.extend o.wholeSecs) key o.owner) reply (some a) where
  ours := .script _
  renews _ _ _ := .inr ⟨rfl, hr⟩
  occupied owner h := absurd (Option.some.inj h) (ha owner)

theorem rule_of_get {owner : String} (hr : reply.optionalText = .ok (some owner))
    (ho : owner ≠ o.owner) :
    Rule key o (.get key) reply (some (.acquire (.ok (.occupied (some owner))))) where
  ours := .get
  renews a h ha := by
    cases h
    cases ha
  occupied owner' h := by
    cases h
    exact ⟨rfl, hr, ho⟩

theorem neutral_acquire_error (e : LockError) : Neutral (.acquire (.error e)) := ⟨rfl, nofun⟩

theorem neutral_refresh_error (e : LockError) : Neutral (.refresh (.error e)) := ⟨rfl, nofun⟩

theorem neutral_release (r : Except LockError Unit) : Neutral (.release r) := ⟨rfl, nofun⟩

/-- A further round leaves the outcome open, and without one nobody is named. -/
theorem Ours.rule_acquireWithin (hq : Ours key o q) (rounds : Nat) :
    Rule key o q reply ((acquireWithin key o rounds).result?.map Answer.acquire) := by
  cases rounds with
  | zero => exact hq.rule_some ⟨rfl, by simp⟩
  | succ rounds => exact hq.rule_none

/-- **Taking a key keeps the rule**, whatever the number of rounds. -/
theorem heeds_acquireWithin (key : String) (o : Options) (rounds : Nat) :
    (acquireWithin key o rounds).Heeds fun q reply r =>
      Rule key o q reply (r.map Answer.acquire) := by
  induction rounds with
  | zero => trivial
  | succ rounds ih =>
    unfold acquireWithin
    refine ⟨rfl, fun reply => ?_⟩
    simp only [question, extend, bind_eq, pure_eq, ask_bind, done_bind]
    cases hset : reply.optionalText with
    | error e => exact ⟨Ours.set.rule_some (neutral_acquire_error e), trivial⟩
    | ok text =>
      cases text with
      | some text => exact ⟨rule_of_set hset (by simp), trivial⟩
      | none =>
        refine ⟨Ours.set.rule_none, rfl, fun reply => ?_⟩
        dsimp only
        cases hget : reply.optionalText with
        | error e => exact ⟨Ours.get.rule_some (neutral_acquire_error e), trivial⟩
        | ok holder =>
          cases holder with
          | none => exact ⟨Ours.get.rule_acquireWithin rounds, ih⟩
          | some holder =>
            by_cases hown : holder = o.owner
            · simp only [hown, ne_eq, not_true_eq_false, if_false]
              refine ⟨Ours.get.rule_none, rfl, fun reply => ?_⟩
              dsimp only
              cases hext : reply.asNumber with
              | error e => exact ⟨(Ours.script _).rule_some (neutral_acquire_error e), trivial⟩
              | ok n =>
                by_cases hn : n = 1
                · subst hn
                  exact ⟨rule_of_extend hext (by simp), trivial⟩
                · simp only [Except.map, beq_eq_false_iff_ne.2 hn]
                  exact ⟨(Ours.script _).rule_acquireWithin rounds, ih⟩
            · simp only [ne_eq, hown, not_false_eq_true, if_true]
              exact ⟨rule_of_get hget hown, trivial⟩

theorem heeds_refresh (key : String) (o : Options) :
    (refresh key o).Heeds fun q reply r => Rule key o q reply (r.map Answer.refresh) := by
  refine ⟨rfl, fun reply => ?_⟩
  simp only [pure_eq, done_bind]
  cases hext : reply.asNumber with
  | error e => exact ⟨(Ours.script _).rule_some (neutral_refresh_error e), trivial⟩
  | ok n =>
    by_cases hn : n = 1
    · subst hn
      exact ⟨rule_of_extend hext (by simp), trivial⟩
    · simp only [Except.map, beq_eq_false_iff_ne.2 hn]
      exact ⟨(Ours.script _).rule_some (neutral_refresh_error _), trivial⟩

theorem heeds_release (key : String) (o : Options) :
    (release key o).Heeds fun q reply r => Rule key o q reply (r.map Answer.release) :=
  ⟨rfl, fun _ => ⟨(Ours.script _).rule_some (neutral_release _), trivial⟩⟩

/-- **Every operation keeps the rule**, whatever the server replies. -/
theorem heeds_adapter (ks : Keyspace) (e : Errand Empty) (op : Op) :
    (ks.adapter e op).Heeds fun q reply r =>
      Rule (ks.key e.own.name) e.options q reply (r.map (·.2)) := by
  cases op with
  | acquire =>
    refine (heeds_acquireWithin _ _ 2).map fun q reply r h => ?_
    rwa [Option.map_map]
  | refresh =>
    refine (heeds_refresh _ _).map fun q reply r h => ?_
    rwa [Option.map_map]
  | release =>
    refine (heeds_release _ _).map fun q reply r h => ?_
    rwa [Option.map_map]

end LeaseLock.Redis
