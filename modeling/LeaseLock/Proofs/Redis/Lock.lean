import LeaseLock.Redis.Adapter
import LeaseLock.Proofs.Options
import LeaseLock.Proofs.Redis.Database

/-!
# A key as the record of a lock

**The lock** (`serve`). What one call makes of the live record of its name, and how it comes out
(`Verdict`). Nothing is said here of commands, scripts or what is stored when a record has ended.

**Calls at one instant.** An operation on a key sends up to four commands. If nobody else's come in
between, the key is the same for all of them, and the first round of an attempt decides
(`run_acquire_absent`, `run_acquire_own`, `run_acquire_other`).

Main result: `keeps_adapter`. Every operation, with a lease of whole seconds, does to its key what
`serve` says, and touches no other key.
-/

namespace LeaseLock

open Redis (Holding Database Keyspace)

/-- How a call comes out, whatever the reason given. -/
inductive Verdict where
  | granted
  | occupied (owner : String)
  | refreshed
  | lost
  | released
deriving DecidableEq, Repr

/-- The verdict of an answer that is no failure of the service. -/
def Answer.verdict? : Answer → Option Verdict
  | .acquire (.ok .granted) => some .granted
  | .acquire (.ok (.occupied (some owner))) => some (.occupied owner)
  | .refresh (.ok ()) => some .refreshed
  | .refresh (.error (.lost _)) => some .lost
  | .release (.ok ()) => some .released
  | _ => none

/-- What a call makes of the live record of its name, and how it comes out. -/
def serve (now : Instant) (o : Options) : Op → Option Holding → Option Holding × Verdict
  | .acquire, none => (some ⟨o.owner, o.lease.after now⟩, .granted)
  | .acquire, some h =>
    if h.owner = o.owner then (some ⟨o.owner, o.lease.after now⟩, .granted)
    else (some h, .occupied h.owner)
  | .refresh, none => (none, .lost)
  | .refresh, some h =>
    if h.owner = o.owner then (some ⟨o.owner, o.lease.after now⟩, .refreshed) else (some h, .lost)
  | .release, none => (none, .released)
  | .release, some h => if h.owner = o.owner then (none, .released) else (some h, .released)

theorem serve_refresh_other {now : Instant} {o : Options} {live : Option Holding}
    (hne : ∀ h, live = some h → h.owner ≠ o.owner) : serve now o .refresh live = (live, .lost) := by
  cases live with
  | none => rfl
  | some h => rw [serve, if_neg (hne h rfl)]

theorem serve_release_other {now : Instant} {o : Options} {live : Option Holding}
    (hne : ∀ h, live = some h → h.owner ≠ o.owner) :
    serve now o .release live = (live, .released) := by
  cases live with
  | none => rfl
  | some h => rw [serve, if_neg (hne h rfl)]

/-- A lease of whole seconds, at least one, that fits in 64 bits. -/
def Options.Whole (o : Options) : Prop :=
  ∃ secs, 1 ≤ secs ∧ secs ≤ maxInt64 ∧ o.lease = .ofSecs secs

namespace Options.Whole

variable {o : Options}

theorem ofSecs_wholeSecs (h : o.Whole) : Duration.ofSecs o.wholeSecs = o.lease := by
  obtain ⟨secs, hone, hmax, hlease⟩ := h
  rw [wholeSecs_eq, hlease, Duration.coveringSecs_ofSecs hone, Nat.min_eq_left hmax]

theorem lt_after (h : o.Whole) (now : Instant) : now < o.lease.after now := by
  obtain ⟨secs, hone, -, hlease⟩ := h
  have hpos : 0 < o.lease.nanos := by
    rw [hlease]
    simp only [Duration.ofSecs, Duration.ofParts, Duration.perSecond]
    omega
  exact Nat.lt_add_of_pos_right hpos

end Options.Whole

/-! ## The keys of a server -/

namespace Redis

namespace Database

variable {d : Database} {key k : String} {h : Holding}

theorem live?_put_self (d : Database) (key : String) (h : Option Holding) :
    (d.put key h).live? key = h.filter fun h => d.now < h.ends := by
  unfold live?
  rw [keys_put_self]
  rfl

theorem live?_put_of_ne (d : Database) (h : Option Holding) (hk : k ≠ key) :
    (d.put key h).live? k = d.live? k := by
  unfold live?
  rw [keys_put_of_ne d h hk]
  rfl

/-- The server when its clock shows the time given. -/
def asOf (d : Database) (now : Instant) : Database := { d with now }

theorem asOf_now (d : Database) : d.asOf d.now = d := rfl

theorem live?_later (d : Database) (key : String) {now til : Instant} (hle : now ≤ til) :
    (d.asOf til).live? key = ((d.asOf now).live? key).filter fun h => til < h.ends := by
  unfold live? asOf
  rw [Option.filter_filter]
  congr 1
  funext h
  by_cases hl : til < h.ends
  · simp [hl, Nat.lt_of_le_of_lt hle hl]
  · simp [hl]

theorem live?_put_hold {o : Options} (hw : o.Whole) (d : Database) (key : String) :
    (d.put key (some (d.hold o.owner o.wholeSecs))).live? key =
      some ⟨o.owner, o.lease.after d.now⟩ := by
  rw [live?_put_self, hold, hw.ofSecs_wholeSecs, Option.filter_some]
  simp [hw.lt_after]

end Database

/-- The server after a call about a key has the record of that key that is given, and all other
keys as they were. -/
structure Serves (d d' : Database) (key : String) (live : Option Holding) : Prop where
  now : d'.now = d.now
  self : d'.live? key = live
  others : ∀ k, k ≠ key → d'.live? k = d.live? k

variable {d : Database} {key : String} {o : Options} {h : Holding} {live : Option Holding}

theorem Serves.refl (hl : d.live? key = live) : Serves d d key live := ⟨rfl, hl, fun _ _ => rfl⟩

theorem serves_hold (hw : o.Whole) (d : Database) (key : String) :
    Serves d (d.put key (some (d.hold o.owner o.wholeSecs))) key
      (some ⟨o.owner, o.lease.after d.now⟩) :=
  ⟨rfl, Database.live?_put_hold hw d key, fun _ => Database.live?_put_of_ne d _⟩

theorem serves_remove (d : Database) (key : String) : Serves d (d.put key none) key none :=
  ⟨rfl, Database.live?_put_self d key none, fun _ => Database.live?_put_of_ne d _⟩

/-- A script does its work on the key of its owner. -/
theorem answer_script_own (hl : d.live? key = some h) (s : Script) :
    d.answer (.eval s key h.owner) = (match s with
      | .extend secs => d.put key (some (d.hold h.owner secs))
      | .remove => d.put key none, .number 1) := by
  simp only [Database.answer, hl, if_true]
  cases s <;> rfl

theorem answer_script_other {owner : String}
    (hne : ∀ h, d.live? key = some h → h.owner ≠ owner) (s : Script) :
    d.answer (.eval s key owner) = (d, .number 0) := by
  simp only [Database.answer]
  cases hl : d.live? key with
  | none => rfl
  | some h =>
    dsimp only
    rw [if_neg (hne h hl)]

theorem run_question_bind {α : Type} (d : Database) (q : Command)
    (f : Reply → Talk Command Reply α) :
    ((Talk.question q).bind f).run d = (f (d.answer q).2).run (d.answer q).1 := rfl

theorem run_extend_own (hl : d.live? key = some h) (ho : h.owner = o.owner) :
    (extend key o).run d = (d.put key (some (d.hold o.owner o.wholeSecs)), .ok (.ok true)) := by
  unfold extend
  rw [Talk.bind_eq, run_question_bind, ← ho, answer_script_own hl]
  rfl

theorem run_extend_other (hne : ∀ h, d.live? key = some h → h.owner ≠ o.owner) :
    (extend key o).run d = (d, .ok (.ok false)) := by
  unfold extend
  rw [Talk.bind_eq, run_question_bind, answer_script_other hne]
  rfl

theorem run_refresh_own (hl : d.live? key = some h) (ho : h.owner = o.owner) :
    (refresh key o).run d = (d.put key (some (d.hold o.owner o.wholeSecs)), .ok (.ok ())) := by
  unfold refresh
  rw [Talk.bind_eq, Talk.run_bind, run_extend_own hl ho]
  rfl

theorem run_refresh_other (hne : ∀ h, d.live? key = some h → h.owner ≠ o.owner) :
    (refresh key o).run d = (d, .ok (.error (.lost (.key key o.owner)))) := by
  unfold refresh
  rw [Talk.bind_eq, Talk.run_bind, run_extend_other hne]
  rfl

theorem run_release_own (hl : d.live? key = some h) (ho : h.owner = o.owner) :
    (release key o).run d = (d.put key none, .ok (.ok ())) := by
  unfold release
  rw [Talk.bind_eq, run_question_bind, ← ho, answer_script_own hl]
  rfl

theorem run_release_other (hne : ∀ h, d.live? key = some h → h.owner ≠ o.owner) :
    (release key o).run d = (d, .ok (.ok ())) := by
  unfold release
  rw [Talk.bind_eq, run_question_bind, answer_script_other hne]
  rfl

theorem answer_setAbsent_of_live (hl : d.live? key = some h) (owner : String) (secs : Nat) :
    d.answer (.setAbsent key owner secs) = (d, .nil) := by
  simp only [Database.answer, hl]

theorem answer_get_of_live (hl : d.live? key = some h) :
    d.answer (.get key) = (d, .text h.owner) := by
  simp only [Database.answer, hl]

theorem run_acquire_absent (hl : d.live? key = none) :
    (acquire key o).run d =
      (d.put key (some (d.hold o.owner o.wholeSecs)), .ok (.ok .granted)) := by
  have hset : d.answer (.setAbsent key o.owner o.wholeSecs) =
      (d.put key (some (d.hold o.owner o.wholeSecs)), .text "OK") := by
    simp only [Database.answer, hl]
  unfold acquire acquireWithin
  rw [Talk.bind_eq, run_question_bind, hset]
  rfl

/-- The key cannot go away between the commands, so that the first round decides. -/
theorem run_acquire_own (hl : d.live? key = some h) (ho : h.owner = o.owner) :
    (acquire key o).run d =
      (d.put key (some (d.hold o.owner o.wholeSecs)), .ok (.ok .granted)) := by
  unfold acquire acquireWithin
  rw [Talk.bind_eq, run_question_bind, answer_setAbsent_of_live hl]
  show ((Talk.question (.get key)).bind _).run d = _
  rw [run_question_bind, answer_get_of_live hl]
  simp only [Reply.optionalText, ho, ne_eq, not_true_eq_false, if_false]
  rw [Talk.bind_eq, Talk.run_bind, run_extend_own hl ho]
  rfl

theorem run_acquire_other (hl : d.live? key = some h) (ho : h.owner ≠ o.owner) :
    (acquire key o).run d = (d, .ok (.ok (.occupied (some h.owner)))) := by
  unfold acquire acquireWithin
  rw [Talk.bind_eq, run_question_bind, answer_setAbsent_of_live hl]
  show ((Talk.question (.get key)).bind _).run d = _
  rw [run_question_bind, answer_get_of_live hl]
  simp only [Reply.optionalText, ne_eq, ho, not_false_eq_true, if_true]
  rfl

theorem Keyspace.key_injective (ks : Keyspace) : Function.Injective ks.key := by
  intro a b h
  exact (String.append_right_inj ks.keyPrefix).1 h

/-- The talk of an operation comes to the verdict that the lock gives, and leaves its record. -/
def Keeps (d : Database) (key : String) (o : Options) (op : Op)
    (result : Database × Except (List Command) (Option Empty × Answer)) : Prop :=
  ∃ d' a, result = (d', .ok (none, a)) ∧
    a.verdict? = some (serve d.now o op (d.live? key)).2 ∧
    Serves d d' key (serve d.now o op (d.live? key)).1

theorem keeps_of_run {α : Type} {t : Talk Command Reply α} {f : α → Answer} {op : Op}
    {d' : Database} {r : α} {verdict : Verdict} (hrun : t.run d = (d', .ok r))
    (hserve : serve d.now o op (d.live? key) = (live, verdict))
    (hverdict : (f r).verdict? = some verdict) (hs : Serves d d' key live) :
    Keeps d key o op ((t.bind fun r => Talk.done (none, f r)).run d) := by
  refine ⟨d', f r, ?_, ?_, ?_⟩
  · rw [Talk.run_bind, hrun]
    rfl
  · rw [hserve, hverdict]
  · rw [hserve]
    exact hs

theorem keeps_acquire (hw : o.Whole) (d : Database) (key : String) :
    Keeps d key o .acquire
      (((acquire key o).bind fun r => Talk.done (none, Answer.acquire r)).run d) := by
  cases hl : d.live? key with
  | none =>
    exact keeps_of_run (run_acquire_absent hl) (by rw [hl, serve]) rfl (serves_hold hw d key)
  | some h =>
    by_cases ho : h.owner = o.owner
    · exact keeps_of_run (run_acquire_own hl ho) (by rw [hl, serve, if_pos ho]) rfl
        (serves_hold hw d key)
    · exact keeps_of_run (run_acquire_other hl ho) (by rw [hl, serve, if_neg ho]) rfl
        (Serves.refl hl)

theorem keeps_refresh (hw : o.Whole) (d : Database) (key : String) :
    Keeps d key o .refresh
      (((refresh key o).bind fun r => Talk.done (none, Answer.refresh r)).run d) := by
  by_cases hown : ∃ h, d.live? key = some h ∧ h.owner = o.owner
  · obtain ⟨h, hl, ho⟩ := hown
    exact keeps_of_run (run_refresh_own hl ho) (by rw [hl, serve, if_pos ho]) rfl
      (serves_hold hw d key)
  · have hne : ∀ h, d.live? key = some h → h.owner ≠ o.owner := fun h hl ho => hown ⟨h, hl, ho⟩
    exact keeps_of_run (run_refresh_other hne) (serve_refresh_other hne) rfl (Serves.refl rfl)

theorem keeps_release (d : Database) (key : String) (o : Options) :
    Keeps d key o .release
      (((release key o).bind fun r => Talk.done (none, Answer.release r)).run d) := by
  by_cases hown : ∃ h, d.live? key = some h ∧ h.owner = o.owner
  · obtain ⟨h, hl, ho⟩ := hown
    exact keeps_of_run (run_release_own hl ho) (by rw [hl, serve, if_pos ho]) rfl
      (serves_remove d key)
  · have hne : ∀ h, d.live? key = some h → h.owner ≠ o.owner := fun h hl ho => hown ⟨h, hl, ho⟩
    exact keeps_of_run (run_release_other hne) (serve_release_other hne) rfl (Serves.refl rfl)

/-- **The operations on a key are those of the lock.** -/
theorem keeps_adapter (ks : Keyspace) {e : Errand Empty} {op : Op}
    (hw : op ≠ .release → e.options.Whole) (d : Database) :
    Keeps d (ks.key e.own.name) e.options op ((ks.adapter e op).run d) := by
  cases op with
  | acquire => exact keeps_acquire (hw nofun) d _
  | refresh => exact keeps_refresh (hw nofun) d _
  | release => exact keeps_release d _ _

end Redis

end LeaseLock
