import LeaseLock.Redis.Command
import LeaseLock.Duration
import LeaseLock.Remote
import Mathlib.Logic.Function.Basic
import Mathlib.Tactic.Common

/-!
# A server of keys with deadlines

**The server** (`Database`). A clock, and keys that hold an owner until an instant. A key whose time
to live has ended counts as absent (`Database.live?`). Every command, and every script, is run as
one step (`Database.answer`).

Main results: `answer_of_live`, by which a live key is touched by no command but a script that
names its owner, and what the replies of the commands tell (`keys_of_set`, `keys_of_extend`,
`live?_of_get`).
-/

namespace LeaseLock.Redis

/-- What a key holds, and until when. -/
structure Holding where
  owner : String
  ends : Instant
deriving DecidableEq, Repr

structure Database where
  now : Instant := 0
  keys : String → Option Holding := fun _ => none

namespace Database

/-- What the key holds, unless its time to live has ended. -/
def live? (d : Database) (key : String) : Option Holding :=
  (d.keys key).filter fun h => d.now < h.ends

def put (d : Database) (key : String) (h : Option Holding) : Database :=
  { d with keys := Function.update d.keys key h }

/-- An owner's holding for some seconds from now. -/
def hold (d : Database) (owner : String) (secs : Nat) : Holding :=
  ⟨owner, (Duration.ofSecs secs).after d.now⟩

/-- Runs one command. -/
def answer (d : Database) : Command → Database × Reply
  | .setAbsent key owner secs =>
    match d.live? key with
    | some _ => (d, .nil)
    | none => (d.put key (some (d.hold owner secs)), .text "OK")
  | .get key =>
    match d.live? key with
    | some h => (d, .text h.owner)
    | none => (d, .nil)
  | .eval script key owner =>
    match d.live? key with
    | some h =>
      if h.owner = owner then
        match script with
        | .extend secs => (d.put key (some (d.hold owner secs)), .number 1)
        | .remove => (d.put key none, .number 1)
      else (d, .number 0)
    | none => (d, .number 0)

instance : Server Database Command Reply := ⟨fun d q => ((d.answer q).1, some (d.answer q).2)⟩

variable {d : Database} {key owner : String} {h : Holding} {q : Command} {secs : Nat}

theorem live?_eq_some_iff : d.live? key = some h ↔ d.keys key = some h ∧ d.now < h.ends := by
  unfold live?
  rw [Option.filter_eq_some_iff]
  simp

@[simp] theorem keys_put_self (d : Database) (key : String) (v : Option Holding) :
    (d.put key v).keys key = v :=
  Function.update_self ..

theorem keys_put_of_ne (d : Database) {key k : String} (v : Option Holding) (hk : k ≠ key) :
    (d.put key v).keys k = d.keys k :=
  Function.update_of_ne hk ..

@[simp] theorem now_answer (d : Database) (q : Command) : (d.answer q).1.now = d.now := by
  cases q with
  | setAbsent key owner secs =>
    simp only [answer]
    split <;> rfl
  | get key =>
    simp only [answer]
    split <;> rfl
  | eval script key owner =>
    simp only [answer]
    split
    · split
      · cases script <;> rfl
      · rfl
    · rfl

/-- **A live key is touched by no command** but a script that names its owner. -/
theorem answer_of_live (hl : d.live? key = some h) (hq : ∀ script, q ≠ .eval script key h.owner) :
    (d.answer q).1.keys key = d.keys key := by
  cases q with
  | setAbsent k owner secs =>
    simp only [answer]
    by_cases hk : key = k
    · subst hk
      rw [hl]
    · cases d.live? k with
      | some => rfl
      | none => exact keys_put_of_ne d _ hk
  | get k =>
    simp only [answer]
    cases d.live? k <;> rfl
  | eval script k owner =>
    simp only [answer]
    by_cases hk : key = k
    · subst hk
      have hne : h.owner ≠ owner := by
        rintro rfl
        exact hq script rfl
      simp only [hl, if_neg hne]
    · cases d.live? k with
      | none => rfl
      | some h' =>
        dsimp only
        split
        · cases script <;> exact keys_put_of_ne d _ hk
        · rfl

/-- An absent key that is set has been written. -/
theorem keys_of_set {text : String}
    (hr : (d.answer (.setAbsent key owner secs)).2.optionalText = .ok (some text)) :
    d.live? key = none ∧
      (d.answer (.setAbsent key owner secs)).1.keys key = some (d.hold owner secs) := by
  simp only [answer] at hr ⊢
  cases hl : d.live? key with
  | some h => simp [hl, Reply.optionalText] at hr
  | none => exact ⟨rfl, keys_put_self ..⟩

theorem keys_of_extend (hr : (d.answer (.eval (.extend secs) key owner)).2.asNumber = .ok 1) :
    (∃ h, d.live? key = some h ∧ h.owner = owner) ∧
      (d.answer (.eval (.extend secs) key owner)).1.keys key = some (d.hold owner secs) := by
  simp only [answer] at hr ⊢
  cases hl : d.live? key with
  | none => simp [hl, Reply.asNumber] at hr
  | some h =>
    simp only [hl] at hr ⊢
    by_cases ho : h.owner = owner
    · simp only [ho, if_true]
      exact ⟨⟨h, rfl, ho⟩, keys_put_self ..⟩
    · simp [if_neg ho, Reply.asNumber] at hr

theorem live?_of_get (hr : (d.answer (.get key)).2.optionalText = .ok (some owner)) :
    ∃ h, d.live? key = some h ∧ h.owner = owner := by
  simp only [answer] at hr
  cases hl : d.live? key with
  | none => simp [hl, Reply.optionalText] at hr
  | some h =>
    simp only [hl, Reply.optionalText, Except.ok.injEq, Option.some.injEq] at hr
    exact ⟨h, rfl, hr⟩

end Database

end LeaseLock.Redis
