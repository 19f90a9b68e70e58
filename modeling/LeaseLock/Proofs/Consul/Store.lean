import LeaseLock.Consul.Client
import LeaseLock.Proofs.Remote.Register
import Mathlib.Logic.Function.Basic

/-!
# A store of keys that sessions hold

**The server** (`Store`). A session is unborn, alive or dead, in this order. A key that no other
session holds is taken for a live session. When a session ends, the keys it holds are freed, but
stay. Every change of a key gives it an index that no key had before, and a key is deleted only at
the index that the request names.

**Replies.** The server replies with any response that reads as it must (`sessionIn?`, `flagIn?`,
`entryIn?`): the form of a response is left open.

**A store in order** (`InOrder`). Keys are held by live sessions, and their indices are in use.

**One request** (`Change`): everything a request can do. Main results: `change_of_serve`,
`inOrder_of_change`, `holder_of_change` and `Since.change`.
-/

namespace LeaseLock.Consul

/-! ## What a reply reads as -/

/-- The session that the reply tells of. -/
def sessionIn? (r : Http.Reply) : Option String := r.content.toOption.bind sessionId?

def flagIn? (r : Http.Reply) : Option Bool := r.content.toOption.bind flag?

/-- The first entry in the reply. -/
def entryIn? (r : Http.Reply) : Option Entry :=
  r.content.toOption.bind fun body => (Entry.parseAll? body).bind List.head?

/-- A failure, or a response that reports an error; but that something was not found is a statement
about the store. -/
def isFault (r : Http.Reply) : Bool := !r.isNotFound && !r.content.isOk

theorem exists_content {α : Type} {r : Http.Reply} {f : String → Option α} {a : α}
    (h : r.content.toOption.bind f = some a) : ∃ body, r.content = .ok body ∧ f body = some a := by
  cases hc : r.content with
  | error e =>
    rw [hc] at h
    cases h
  | ok body =>
    rw [hc] at h
    exact ⟨body, rfl, h⟩

theorem isFault_of_content {r : Http.Reply} {body : String} (h : r.content = .ok body) :
    isFault r = false := by
  unfold isFault
  rw [h]
  exact Bool.and_false _

theorem isNotFound_of_content {r : Http.Reply} {body : String} (h : r.content = .ok body) :
    r.isNotFound = false := by
  cases r with
  | failure report => rfl
  | response status text =>
    by_cases hs : status = 404
    · subst hs
      cases h
    · exact decide_eq_false hs

/-! ## The server -/

/-- A key that exists. -/
structure Slot where
  /-- The session that holds it. -/
  session : Option String
  /-- The index of its last change. -/
  index : Nat
  /-- Its value, if that is a text. -/
  owner : Option String := none
deriving DecidableEq, Repr

structure Store where
  life : String → Life := fun _ => .unborn
  /-- The highest index in use. -/
  index : Nat := 0
  slots : String → Option Slot := fun _ => none

/-- What happens to the server without a request. -/
inductive Event where
  /-- A session runs out. -/
  | expire (session : String)
  /-- Other changes take some indices. -/
  | advance (n : Nat)

/-- The key as it is when a session has ended. -/
def Slot.freed (slot : Slot) (session : String) (index : Nat) : Slot :=
  if slot.session = some session then { slot with session := none, index } else slot

theorem Slot.session_freed (slot : Slot) (session : String) (index : Nat) :
    (slot.freed session index).session =
      if slot.session = some session then none else slot.session := by
  unfold freed
  split <;> rfl

namespace Store

/-- A session is created. -/
def opened (s : Store) (session : String) : Store :=
  { s with life := Function.update s.life session .alive }

@[simp] theorem opened_life (s : Store) (session : String) :
    (s.opened session).life session = .alive := Function.update_self _ _ _

/-- A session ends, and the keys that it holds are free. -/
def closed (s : Store) (session : String) : Store where
  life := Function.update s.life session .dead
  index := s.index + 1
  slots key := (s.slots key).map (·.freed session (s.index + 1))

/-- The key is taken for a session. -/
def taken (s : Store) (key session value : String) : Store :=
  { s with
    index := s.index + 1
    slots := Function.update s.slots key (some ⟨some session, s.index + 1, some value⟩) }

def deleted (s : Store) (key : String) : Store :=
  { s with index := s.index + 1, slots := Function.update s.slots key none }

/-- The session that holds the key. -/
def holder (s : Store) (key : String) : Option String := (s.slots key).bind Slot.session

theorem holder_taken (s : Store) (key session value key' : String) :
    (s.taken key session value).holder key' =
      if key' = key then some session else s.holder key' := by
  unfold holder taken
  dsimp only
  rw [Function.update_apply]
  split <;> rfl

theorem holder_deleted (s : Store) (key key' : String) :
    (s.deleted key).holder key' = if key' = key then none else s.holder key' := by
  unfold holder deleted
  dsimp only
  rw [Function.update_apply]
  split <;> rfl

theorem holder_closed (s : Store) (session key : String) :
    (s.closed session).holder key =
      if s.holder key = some session then none else s.holder key := by
  have hslots : (s.closed session).slots key =
      (s.slots key).map (·.freed session (s.index + 1)) := rfl
  unfold holder
  rw [hslots]
  cases s.slots key with
  | none => rfl
  | some slot => exact slot.session_freed session (s.index + 1)

/-- The key is as the reply tells. -/
def describedBy (s : Store) (key : String) (r : Http.Reply) : Bool :=
  match s.slots key with
  | none => r.isNotFound
  | some slot => !r.isNotFound && (entryIn? r).any fun e =>
      e.key = key && e.session = slot.session && e.modifyIndex = slot.index && e.owner = slot.owner

/-- Handles a request. The choice is the reply, which has to read as it must. -/
def serve (s : Store) (q : Question) (r : Http.Reply) : Option (Store × Http.Reply) :=
  match q with
  | .openSession _ _ => (sessionIn? r).bind fun session =>
    if s.life session = .unborn then some (s.opened session, r) else none
  | .keepSession session =>
    if s.life session = .alive then
      if !r.isNotFound && r.content.isOk then some (s, r) else none
    else if r.isNotFound then some (s, r) else none
  | .closeSession session =>
    if r.content.isOk then some (if s.life session = .alive then s.closed session else s, r)
    else none
  | .acquire key session value =>
    if s.life session = .alive then
      match flagIn? r with
      | some true =>
        if s.holder key = none ∨ s.holder key = some session then
          some (s.taken key session value, r)
        else none
      | some false => some (s, r)
      | none => none
    else if r.content.isOk then none else some (s, r)
  | .get key => if s.describedBy key r then some (s, r) else none
  | .deleteAt key index =>
    if (s.slots key).map Slot.index = some index then
      if flagIn? r = some true then some (s.deleted key, r) else none
    else if (flagIn? r).isSome then some (s, r) else none

/-- A session runs out, or other changes happen. -/
def happen (s : Store) : Event → Option Store
  | .expire session => if s.life session = .alive then some (s.closed session) else none
  | .advance n => some { s with index := s.index + n }

end Store

instance : Host Store Question Http.Reply Http.Reply Event where
  serve := Store.serve
  pass := Store.happen
  isFault := isFault

namespace Store

variable {s s' : Store} {q : Question} {r choice : Http.Reply} {session key : String} {slot : Slot}
  {n : Nat} {e : Event}

/-- Keys are held by live sessions, and their indices are in use. -/
structure InOrder (s : Store) : Prop where
  alive : ∀ key session, s.holder key = some session → s.life session = .alive
  index_le : ∀ key slot, s.slots key = some slot → slot.index ≤ s.index

/-- What a request may do. -/
inductive Change (s : Store) : Question → Store → Http.Reply → Prop
  | opened {name : String} {ttl : Nat} {session : String} {r : Http.Reply} :
      s.life session = .unborn → sessionIn? r = some session →
      Change s (.openSession name ttl) (s.opened session) r
  | kept {session : String} {r : Http.Reply} :
      (r.isNotFound = false → s.life session = .alive) → Change s (.keepSession session) s r
  | closed {session : String} {r : Http.Reply} : s.life session = .alive →
      Change s (.closeSession session) (s.closed session) r
  | idle {session : String} {r : Http.Reply} : s.life session ≠ .alive →
      Change s (.closeSession session) s r
  | taken {key session value : String} {r : Http.Reply} : s.life session = .alive →
      s.holder key = none ∨ s.holder key = some session →
      Change s (.acquire key session value) (s.taken key session value) r
  | refused {key session value : String} {r : Http.Reply} : flagIn? r ≠ some true →
      Change s (.acquire key session value) s r
  | read {key : String} {r : Http.Reply} :
      (∀ e, entryIn? r = some e → s.slots key = some ⟨e.session, e.modifyIndex, e.owner⟩) →
      Change s (.get key) s r
  | deleted {key : String} {slot : Slot} {r : Http.Reply} : s.slots key = some slot →
      Change s (.deleteAt key slot.index) (s.deleted key) r
  | changed {key : String} {index : Nat} {r : Http.Reply} : Change s (.deleteAt key index) s r

theorem slots_of_describedBy {e : Entry} (h : s.describedBy key r = true)
    (he : entryIn? r = some e) : s.slots key = some ⟨e.session, e.modifyIndex, e.owner⟩ := by
  unfold describedBy at h
  split at h
  · obtain ⟨body, hbody, -⟩ := exists_content he
    cases h.symm.trans (isNotFound_of_content hbody)
  next slot hslot =>
    rw [hslot]
    simp only [he, Option.any_some, Bool.and_eq_true, decide_eq_true_iff] at h
    obtain ⟨-, ⟨⟨-, hsession⟩, hindex⟩, howner⟩ := h
    rw [hsession, hindex, howner]

/-- **What a request can do.** -/
theorem change_of_serve (h : s.serve q choice = some (s', r)) : Change s q s' r := by
  cases q with
  | openSession name ttl =>
    obtain ⟨session, hr, h⟩ := Option.bind_eq_some_iff.1 h
    split at h
    next hl =>
      cases h
      exact .opened hl hr
    · cases h
  | keepSession session =>
    simp only [serve] at h
    split at h
    next hl =>
      split at h
      · cases h
        exact .kept fun _ => hl
      · cases h
    · split at h
      next hr =>
        cases h
        exact .kept fun hr' => by simp [hr] at hr'
      · cases h
  | closeSession session =>
    simp only [serve] at h
    split at h
    · cases h
      split
      next hl => exact .closed hl
      next hl => exact .idle hl
    · cases h
  | acquire key session value =>
    simp only [serve] at h
    split at h
    next hl =>
      split at h
      · split at h
        next hfree =>
          cases h
          exact .taken hl hfree
        · cases h
      next hflag =>
        cases h
        exact .refused (by simp [hflag])
      · cases h
    · split at h
      · cases h
      next hr =>
        cases h
        refine .refused fun hflag => hr ?_
        obtain ⟨body, hbody, -⟩ := exists_content hflag
        rw [hbody]
        rfl
  | get key =>
    simp only [serve] at h
    split at h
    next hd =>
      cases h
      exact .read fun e => slots_of_describedBy hd
    · cases h
  | deleteAt key index =>
    simp only [serve] at h
    split at h
    next hindex =>
      obtain ⟨slot, hslot, rfl⟩ := Option.map_eq_some_iff.1 hindex
      split at h
      · cases h
        exact .deleted hslot
      · cases h
    · split at h
      · cases h
        exact .changed
      · cases h

/-! ## What follows from a reply -/

theorem Change.of_session {name : String} {ttl : Nat} (h : Change s q s' r)
    (hq : q = .openSession name ttl) (hr : sessionIn? r = some session) :
    s.life session = .unborn ∧ s' = s.opened session := by
  cases h with
  | opened hl hr' =>
    cases hr.symm.trans hr'
    exact ⟨hl, rfl⟩
  | kept | closed | idle | taken | refused | read | deleted | changed => cases hq

theorem Change.of_kept (h : Change s q s' r) (hq : q = .keepSession session)
    (hr : r.isNotFound = false) : s.life session = .alive := by
  cases h with
  | kept hl =>
    cases hq
    exact hl hr
  | opened | closed | idle | taken | refused | read | deleted | changed => cases hq

theorem Change.of_taken {value : String} (h : Change s q s' r) (hq : q = .acquire key session value)
    (hr : flagIn? r = some true) : s'.holder key = some session := by
  cases h with
  | taken =>
    cases hq
    rw [holder_taken, if_pos rfl]
  | refused hne => exact absurd hr hne
  | opened | kept | closed | idle | read | deleted | changed => cases hq

theorem Change.of_entry {e : Entry} (h : Change s q s' r) (hq : q = .get key)
    (he : entryIn? r = some e) :
    s' = s ∧ s.slots key = some ⟨e.session, e.modifyIndex, e.owner⟩ := by
  cases h with
  | read hd =>
    cases hq
    exact ⟨rfl, hd e he⟩
  | opened | kept | closed | idle | taken | refused | deleted | changed => cases hq

/-! ## Sessions and the keys that they hold -/

/-- **The life of a session** goes on by one step at most. -/
theorem leads_of_change (h : Change s q s' r) (session : String) :
    (s.life session).Leads (s'.life session) := by
  cases h with
  | opened hl => exact Life.Leads.update (hl ▸ .born) session
  | closed hl => exact Life.Leads.update (hl ▸ .dies) session
  | kept | idle | taken | refused | read | deleted | changed => exact .stays

theorem InOrder.closed (h : s.InOrder) (session : String) : (s.closed session).InOrder where
  alive key session' hh := by
    rw [holder_closed] at hh
    split at hh
    · cases hh
    next hne =>
      have hne : session' ≠ session := fun heq => hne (heq ▸ hh)
      exact (Function.update_of_ne hne _ _).trans (h.alive key session' hh)
  index_le key slot hs := by
    obtain ⟨slot', hslot, rfl⟩ := Option.map_eq_some_iff.1 hs
    unfold Slot.freed
    split
    · exact Nat.le_refl _
    · exact Nat.le_succ_of_le (h.index_le key slot' hslot)

/-- **The store stays in order.** -/
theorem inOrder_of_change (h : s.InOrder) (hc : Change s q s' r) : s'.InOrder := by
  cases hc with
  | @opened _ _ session _ hl _ =>
    refine ⟨fun key session' hh => ?_, h.index_le⟩
    have halive := h.alive key session' hh
    have hne : session' ≠ session := by
      rintro rfl
      exact Life.noConfusion (hl.symm.trans halive)
    exact (Function.update_of_ne hne _ _).trans halive
  | closed => exact h.closed _
  | kept | idle | refused | read | changed => exact h
  | taken hl _ =>
    refine ⟨fun key' session' hh => ?_, fun key' slot hs => ?_⟩
    · rw [holder_taken] at hh
      split at hh
      · cases hh
        exact hl
      · exact h.alive key' session' hh
    · simp only [Store.taken, Function.update_apply] at hs ⊢
      split at hs
      · cases hs
        exact Nat.le_refl _
      · exact Nat.le_succ_of_le (h.index_le key' slot hs)
  | deleted =>
    refine ⟨fun key' session' hh => ?_, fun key' slot hs => ?_⟩
    · rw [holder_deleted] at hh
      split at hh
      · cases hh
      · exact h.alive key' session' hh
    · simp only [Store.deleted, Function.update_apply] at hs ⊢
      split at hs
      · cases hs
      · exact Nat.le_succ_of_le (h.index_le key' slot hs)

/-- **What takes a key from a session**: the end of the session, or a deletion of the key as it
is. -/
theorem holder_of_change (h : Change s q s' r) (hh : s.holder key = some session) :
    s'.holder key = some session ∨ (q = .closeSession session ∧ s'.life session = .dead) ∨
      ∃ slot, s.slots key = some slot ∧ slot.session = some session ∧
        q = .deleteAt key slot.index := by
  cases h with
  | opened | kept | idle | refused | read | changed => exact .inl hh
  | @closed session' =>
    by_cases heq : session' = session
    · subst heq
      exact .inr (.inl ⟨rfl, Function.update_self _ _ _⟩)
    · refine .inl ?_
      rw [holder_closed, if_neg, hh]
      rw [hh]
      exact fun hs => heq (Option.some.inj hs).symm
  | @taken key' session' _ _ _ hfree =>
    rw [holder_taken]
    split
    next hkey =>
      subst hkey
      rcases hfree with hnone | hs
      · cases hnone.symm.trans hh
      · exact .inl (hs.symm.trans hh)
    · exact .inl hh
  | @deleted key' slot _ hslot =>
    rw [holder_deleted]
    split
    next hkey =>
      subst hkey
      refine .inr (.inr ⟨slot, hslot, ?_, rfl⟩)
      rwa [holder, hslot] at hh
    · exact .inl hh

/-! ## Indices -/

/-- If the key still has the index of the slot, it still is the slot. -/
structure Since (s : Store) (key : String) (slot : Slot) : Prop where
  index_le : slot.index ≤ s.index
  eq : ∀ slot', s.slots key = some slot' → slot'.index = slot.index → slot' = slot

theorem InOrder.since (h : s.InOrder) (hs : s.slots key = some slot) : s.Since key slot where
  index_le := h.index_le key slot hs
  eq _ hs' _ := Option.some.inj (hs'.symm.trans hs)

theorem Since.closed (h : s.Since key slot) (session : String) :
    (s.closed session).Since key slot where
  index_le := Nat.le_succ_of_le h.index_le
  eq _ hs hindex := by
    obtain ⟨slot₀, hslot, rfl⟩ := Option.map_eq_some_iff.1 hs
    unfold Slot.freed at hindex ⊢
    split at hindex
    · have := h.index_le
      dsimp only at hindex
      omega
    next hne =>
      rw [if_neg hne]
      exact h.eq slot₀ hslot hindex

/-- **An index names one state of a key.** -/
theorem Since.change (h : s.Since key slot) (hc : Change s q s' r) : s'.Since key slot := by
  have hle := h.index_le
  cases hc with
  | opened => exact ⟨h.index_le, h.eq⟩
  | kept | idle | refused | read | changed => exact h
  | closed => exact h.closed _
  | taken =>
    refine ⟨Nat.le_succ_of_le hle, fun slot' hs hindex => ?_⟩
    simp only [Store.taken, Function.update_apply] at hs
    split at hs
    · cases hs
      dsimp only at hindex
      omega
    · exact h.eq slot' hs hindex
  | deleted =>
    refine ⟨Nat.le_succ_of_le hle, fun slot' hs hindex => ?_⟩
    simp only [Store.deleted, Function.update_apply] at hs
    split at hs
    · cases hs
    · exact h.eq slot' hs hindex

/-! ## What happens without a request -/

theorem happen_cases (h : s.happen e = some s') :
    (∃ session, s.life session = .alive ∧ s' = s.closed session) ∨
      ∃ n, s' = { s with index := s.index + n } := by
  cases e with
  | expire session =>
    simp only [happen] at h
    split at h
    next hl =>
      cases h
      exact .inl ⟨session, hl, rfl⟩
    · cases h
  | advance n =>
    cases h
    exact .inr ⟨n, rfl⟩

theorem leads_of_happen (h : s.happen e = some s') (session : String) :
    (s.life session).Leads (s'.life session) := by
  obtain ⟨session', hl, rfl⟩ | ⟨n, rfl⟩ := happen_cases h
  · exact Life.Leads.update (hl ▸ .dies) session
  · exact .stays

theorem inOrder_of_happen (h : s.InOrder) (he : s.happen e = some s') : s'.InOrder := by
  obtain ⟨session, -, rfl⟩ | ⟨n, rfl⟩ := happen_cases he
  · exact h.closed session
  · exact ⟨h.alive, fun key slot hs => Nat.le_add_right_of_le (h.index_le key slot hs)⟩

theorem Since.happen (h : s.Since key slot) (he : s.happen e = some s') : s'.Since key slot := by
  obtain ⟨session, -, rfl⟩ | ⟨n, rfl⟩ := happen_cases he
  · exact h.closed session
  · exact ⟨Nat.le_add_right_of_le h.index_le, h.eq⟩

/-- A session that lives on keeps its keys. -/
theorem holder_of_happen (he : s.happen e = some s') (hh : s.holder key = some session)
    (hl : s'.life session = .alive) : s'.holder key = some session := by
  obtain ⟨session', -, rfl⟩ | ⟨n, rfl⟩ := happen_cases he
  · rw [holder_closed, if_neg, hh]
    rw [hh]
    rintro ⟨⟩
    exact Life.noConfusion (hl.symm.trans (Function.update_self _ _ _))
  · exact hh

end Store

end LeaseLock.Consul
