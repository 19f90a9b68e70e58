import LeaseLock.Mongo.Adapter
import LeaseLock.Proofs.Remote.Journal
import Mathlib.Tactic.Common

/-!
# What the operations on documents ask and come to

**The rule** (`rule`). An attempt takes the document with the token of its own number, a refresh
extends it and a release deletes it with the token of the acquisition (`May`). What they come to is
read off the last reply (`Ends`): an attempt is granted only if the document came back with its own
token, and all it heard before that are collisions.

Main results: `rule_binds`, and `plain_adapter`: nothing is owed and nothing is told.
-/

namespace LeaseLock.Mongo

open Network

variable {c : Collection} {e : Commission String} {past : List (Command × Reply)}

/-- What an operation may ask. -/
inductive May (c : Collection) (e : Commission String) : Command → Prop
  | take : e.op = .acquire → May c e (.take c.name e.errand.options (c.mint e.errand.attempts))
  | extend {token : String} : e.op = .refresh → e.errand.token = some token →
      May c e (.extend c.name e.errand.options token)
  | delete {token : String} : e.op = .release → e.errand.token = some token →
      May c e (.delete c.name e.errand.options token)

/-- What an operation may come to: the token to keep, and the answer. -/
inductive Ends (c : Collection) (e : Commission String) (past : List (Command × Reply)) :
    Option String × Answer → Prop
  | granted {q : Command} {b : Bson} {r : Record} {rest : List (Command × Reply)} :
      e.op = .acquire → past = (q, .found (some b)) :: rest → Record.ofBson? b = some r →
      r.token = c.mint e.errand.attempts → (∀ p ∈ rest, p.2.isCollision = true) →
      Ends c e past (some (c.mint e.errand.attempts), .acquire (.ok .granted))
  | refused {result : Except LockError Attempt} : result ≠ .ok .granted →
      Ends c e past (e.errand.token, .acquire result)
  | tokenless : e.errand.token = none → Ends c e past (none, .refresh (.error .notHeld))
  | kept {token : String} {n : Nat} : e.op = .refresh → e.errand.token = some token →
      past = [(.extend c.name e.errand.options token, .count (n + 1))] →
      Ends c e past (some token, .refresh (.ok ()))
  | lost {token : String} : e.errand.token = some token →
      past = [(.extend c.name e.errand.options token, .count 0)] →
      Ends c e past (some token, .refresh (.error (.lost (.document e.errand.options.name))))
  | failed {token : String} {reply : Reply} {error : LockError} : e.errand.token = some token →
      past = [(.extend c.name e.errand.options token, reply)] → reply.counted = .error error →
      Ends c e past (some token, .refresh (.error error))
  | left {token : Option String} {result : Except LockError Unit} :
      token = none ∨ token = e.errand.token → Ends c e past (token, .release result)

theorem Ends.granted_of_new {x : Option String × Answer} {token : String} (h : Ends c e past x)
    (hx : x.1 = some token) (hne : e.errand.token ≠ some token) :
    x.2 = .acquire (.ok .granted) := by
  cases h with
  | granted => rfl
  | refused => exact absurd hx hne
  | tokenless => cases hx
  | kept _ ht | lost ht | failed ht => exact absurd (ht.trans hx) hne
  | left h =>
    rcases h with rfl | rfl
    · cases hx
    · exact absurd hx hne

/-- **An attempt that is granted** has heard its own token come back, after collisions at most. -/
theorem Ends.of_granted {x : Option String × Answer} (h : Ends c e past x)
    (hx : x.2 = .acquire (.ok .granted)) :
    e.op = .acquire ∧ x.1 = some (c.mint e.errand.attempts) ∧ ∃ q b r rest,
      past = (q, .found (some b)) :: rest ∧ Record.ofBson? b = some r ∧
      r.token = c.mint e.errand.attempts ∧ ∀ p ∈ rest, p.2.isCollision = true := by
  cases h with
  | granted hop hpast hr ht hrest => exact ⟨hop, rfl, _, _, _, _, hpast, hr, ht, hrest⟩
  | refused hne =>
    cases hx
    exact absurd rfl hne
  | tokenless | kept | lost | failed | left => cases hx

theorem Ends.of_kept {x : Option String × Answer} (h : Ends c e past x)
    (hx : x.2 = .refresh (.ok ())) : ∃ token n, e.errand.token = some token ∧
      past = [(.extend c.name e.errand.options token, .count (n + 1))] := by
  cases h with
  | kept _ ht hpast => exact ⟨_, _, ht, hpast⟩
  | granted | refused | tokenless | lost | failed | left => cases hx

/-- **What a refresh comes to** hangs on the reply that it heard. -/
theorem Ends.of_refresh {x : Option String × Answer} {token : String}
    {result : Except LockError Unit} (h : Ends c e past x) (hx : x.2 = .refresh result)
    (ht : e.errand.token = some token) :
    ∃ reply, past = [(.extend c.name e.errand.options token, reply)] ∧
      ((∃ n, reply = .count (n + 1) ∧ result = .ok ()) ∨
        (reply = .count 0 ∧ result = .error (.lost (.document e.errand.options.name))) ∨
        ∃ error, reply.counted = .error error) := by
  cases h with
  | granted | refused | left => cases hx
  | tokenless hn =>
    rw [hn] at ht
    cases ht
  | @kept token' n _ ht' hpast =>
    cases ht'.symm.trans ht
    cases hx
    exact ⟨_, hpast, .inl ⟨n, rfl, rfl⟩⟩
  | lost ht' hpast =>
    cases ht'.symm.trans ht
    cases hx
    exact ⟨_, hpast, .inr (.inl ⟨rfl, rfl⟩)⟩
  | failed ht' hpast hc =>
    cases ht'.symm.trans ht
    exact ⟨_, hpast, .inr (.inr ⟨_, hc⟩)⟩

/-- What clients of a collection say and come to. -/
def rule (c : Collection) : Rule Command Reply String where
  may e _ := May c e
  ends := Ends c

/-- Taking the document ends with the reply to the last of at most two commands. -/
theorem keeps_take {may : List (Command × Reply) → Command → Prop} {collection token : String}
    {o : Options} (h : ∀ past, may past (.take collection o token)) :
    (take collection o token).Keeps may (fun past r => ∃ reply rest,
      past = (.take collection o token, reply) :: rest ∧ r = reply.record ∧
        ∀ p ∈ rest, p.2.isCollision = true) [] := by
  refine ⟨h _, List.forall_mem_nil _, fun reply => ?_⟩
  show Talk.Keeps _ _ _ (if reply.isCollision then _ else _)
  split
  next hc =>
    exact ⟨h _, List.forall_mem_nil _, fun reply' =>
      ⟨reply', _, rfl, rfl, List.forall_mem_singleton.2 hc⟩⟩
  · exact ⟨reply, [], rfl, rfl, List.forall_mem_nil _⟩

theorem keeps_acquire (ho : e.op = .acquire) :
    (acquire c.name e.errand.options e.errand.token (c.mint e.errand.attempts)).Keeps
      ((rule c).may e) (fun past x => Ends c e past (x.1, .acquire x.2)) [] := by
  refine (keeps_take fun _ => .take ho).bind ?_
  rintro _ _ ⟨reply, rest, rfl, rfl, hrest⟩
  cases hr : reply.record with
  | error e => exact .refused (by simp)
  | ok found =>
    cases found with
    | none => exact .refused (by simp)
    | some r =>
      show Talk.Keeps _ _ _ (if r.token = _ then _ else _)
      split
      next ht =>
        unfold Reply.record at hr
        split at hr
        · cases hr
        next b =>
          split at hr
          next r' hb =>
            cases hr
            exact .granted ho rfl hb ht hrest
          · cases hr
        · cases hr
        · cases hr
      · exact .refused (by simp)

theorem keeps_refresh (ho : e.op = .refresh) :
    (refresh c.name e.errand.options e.errand.token).Keeps ((rule c).may e)
      (fun past x => Ends c e past (x.1, .refresh x.2)) [] := by
  cases ht : e.errand.token with
  | none => exact .tokenless ht
  | some token =>
    refine ⟨.extend ho ht, List.forall_mem_nil _, fun reply => ?_⟩
    cases reply with
    | count n =>
      cases n with
      | zero => exact .lost ht rfl
      | succ n => exact .kept ho ht rfl
    | found | failure | writeFailure => exact .failed ht rfl rfl

theorem keeps_release (ho : e.op = .release) :
    (release c.name e.errand.options e.errand.token).Keeps ((rule c).may e)
      (fun past x => Ends c e past (x.1, .release x.2)) [] := by
  cases ht : e.errand.token with
  | none => exact .left (.inl rfl)
  | some token =>
    refine ⟨.delete ho ht, List.forall_mem_nil _, fun reply => ?_⟩
    cases reply with
    | count n => exact .left (.inl rfl)
    | found | failure | writeFailure => exact .left (.inr ht.symm)

/-- **The operations keep the rule**, whatever the server replies. -/
theorem rule_binds (c : Collection) (own : Nat → Options) :
    (rule c).Binds fun i => ⟨own i, c.adapter⟩ := by
  intro e
  show (c.adapter e.errand e.op).Keeps _ _ _
  unfold Collection.adapter
  cases ho : e.op with
  | acquire => exact (keeps_acquire ho).bind fun _ _ h => h
  | refresh => exact (keeps_refresh ho).bind fun _ _ h => h
  | release => exact (keeps_release ho).bind fun _ _ h => h

theorem plain_take (collection : String) (o : Options) (token : String) :
    (take collection o token).Plain := by
  refine ⟨rfl, fun reply => ?_⟩
  show Talk.Plain (if reply.isCollision then _ else _)
  split
  · exact ⟨rfl, fun _ => trivial⟩
  · trivial

/-- **The operations owe nothing and tell nothing.** -/
theorem plain_adapter (c : Collection) (e : Errand String) (op : Op) : (c.adapter e op).Plain := by
  have ends : ∀ {α : Type} (t : Dialogue α) (f : α → Option String × Answer), t.Plain →
      (t.bind fun a => .done (f a)).Plain := fun t f h => h.bind fun _ => trivial
  cases op with
  | acquire =>
    refine ends _ _ ((plain_take _ _ _).bind fun r => ?_)
    rcases r with e | (_ | r)
    · trivial
    · trivial
    · show Talk.Plain (if _ then _ else _)
      split <;> trivial
  | refresh =>
    refine ends _ _ ?_
    unfold refresh
    split
    · trivial
    · refine ⟨rfl, fun reply => ?_⟩
      cases reply with
      | count n => cases n <;> trivial
      | found | failure | writeFailure => trivial
  | release =>
    refine ends _ _ ?_
    unfold release
    split
    · trivial
    · refine ⟨rfl, fun reply => ?_⟩
      cases reply <;> trivial

end LeaseLock.Mongo
