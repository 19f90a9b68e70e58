import LeaseLock.Proofs.Remote.Journal
import Mathlib.Logic.Function.Basic

/-!
# What is given out once

**Registers** (`Register`). A server gives out leases, or sessions, under ids that it has not used
before. So an id belongs to one operation (`Register.GivenTo`). Clients that keep as their tokens
what their own operations were given (`Register.Minds`) never keep the same.

**Lives** (`Life`). What is given out is unborn at first, then alive, then dead.

**Who ends it** (`Register.EndedBy`). The operation that it was given to, or a release by the client
that keeps it.

Main results: `Register.home_eq_of_hasHeld` and `Register.EndedBy.home_eq`.
-/

namespace LeaseLock

/-- What has become of something that is given out once. -/
inductive Life where
  | unborn
  | alive
  | dead
deriving DecidableEq, Repr

namespace Life

/-- What may become of it in one step. -/
inductive Leads : Life → Life → Prop
  | stays {l : Life} : Leads l l
  | born : Leads .unborn .alive
  | dies : Leads .alive .dead

variable {l l' : Life}

theorem Leads.ne_unborn (h : l.Leads l') (hl : l ≠ .unborn) : l' ≠ .unborn := by
  cases h with
  | stays => exact hl
  | born | dies => exact nofun

theorem Leads.alive (h : l.Leads l') (hl : l ≠ .unborn) (hl' : l' = .alive) : l = .alive := by
  cases h with
  | stays => exact hl'
  | born => exact absurd rfl hl
  | dies => cases hl'

theorem Leads.update {τ : Type} [DecidableEq τ] {f : τ → Life} {k : τ} (h : (f k).Leads l)
    (k' : τ) : (f k').Leads (Function.update f k l k') := by
  rw [Function.update_apply]
  split
  next heq => exact heq ▸ h
  · exact .stays

end Life

namespace Network

variable {S Q A C E τ : Type}

/-- An operation has heard that the id was given to it. -/
def Heard (gives : Q → A → Option τ) (past : List (Q × A)) (k : τ) : Prop :=
  ∃ q a, (q, a) ∈ past ∧ gives q a = some k

theorem Heard.append {gives : Q → A → Option τ} {past : List (Q × A)} {k : τ}
    (h : Heard gives past k) (newer : List (Q × A)) : Heard gives (newer ++ past) k := by
  obtain ⟨q, a, hm, hk⟩ := h
  exact ⟨q, a, List.mem_append_right _ hm, hk⟩

/-- The ids that a server gives out. -/
structure Register (S τ : Type) {Q A C E : Type} [Host S Q A C E] where
  /-- The id that a reply gives out. -/
  gives : Q → A → Option τ
  /-- The id has been given out. -/
  used : S → τ → Prop
  isFault : ∀ {q a k}, gives q a = some k → Host.isFault S a = false
  fresh : ∀ {s s' q a} {choice : C} {k}, Host.serve s q choice = some (s', a) →
    gives q a = some k → ¬ used s k ∧ used s' k
  serve : ∀ {s s' q a} {choice : C} {k}, Host.serve s q choice = some (s', a) →
    used s k → used s' k
  pass : ∀ {s s'} {e : E} {k}, Host.pass s e = some s' → used s k → used s' k

namespace Register

variable [Host S Q A C E] {reg : Register S τ} {R : Rule Q A τ} {log : List (Entry S Q A τ)}
  {c c' : Commission τ} {past : List (Q × A)} {k : τ} {x y : Exchange S Q A τ} {s s' : S}
  {xs : List (Exchange S Q A τ)} {home i j : Nat}

/-- The id was given to the operation. -/
def GivenTo (reg : Register S τ) (log : List (Entry S Q A τ)) (c : Commission τ) (k : τ) : Prop :=
  ∃ x, .handled x ∈ log ∧ x.commission = c ∧ reg.gives x.question x.reply = some k

/-- What operations write as tokens was given to them. -/
def Minds (reg : Register S τ) (R : Rule Q A τ) : Prop :=
  ∀ c past k a, R.ends c past (some k, a) →
    c.errand.token ≠ some k ∨ a = .acquire (.ok .granted) → Heard reg.gives past k

/-- The operation may end what has the id: it was given to it, or the operation is a release, and
the client keeps the id as its token. -/
inductive EndedBy (reg : Register S τ) (log : List (Entry S Q A τ)) (c : Commission τ) (k : τ) :
    Prop
  | self (h : reg.GivenTo log c k)
  | release (c' : Commission τ) (hop : c.op = .release) (ht : c.errand.token = some k)
      (hhome : c'.home = c.home) (h : reg.GivenTo log c' k)

theorem givenTo_of_heard (h : Heard reg.gives past k) (hr : Recalls log c past) :
    reg.GivenTo log c k := by
  obtain ⟨q, a, hm, hk⟩ := h
  obtain ⟨x, hx, hc, rfl, rfl⟩ := (hr.heard q a hm).resolve_left (by simp [reg.isFault hk])
  exact ⟨x, hx, hc, hk⟩

theorem givenTo_of_granted (hR : reg.Minds R) (ho : Orderly R log) (h : Granted log home k) :
    ∃ c, c.home = home ∧ reg.GivenTo log c k := by
  obtain ⟨c, past, a, he, hhome, hnew⟩ := h
  obtain ⟨hrec, hends⟩ := ho.ended he
  exact ⟨c, hhome, givenTo_of_heard (hR c past k a hends hnew) hrec⟩

theorem endedBy_of_token (hR : reg.Minds R) (ho : Orderly R log) (hb : .began c ∈ log)
    (hop : c.op = .release) (ht : c.errand.token = some k) : reg.EndedBy log c k := by
  obtain ⟨c', hhome, h⟩ := givenTo_of_granted hR ho (ho.granted hb ht)
  exact .release c' hop ht hhome h

theorem used_of_served (hs : Served s s' xs) (hx : x ∈ xs)
    (hk : reg.gives x.question x.reply = some k) : reg.used s' k := by
  induction hs with
  | start => cases hx
  | handled _ hy ih =>
    rcases List.mem_cons.1 hx with rfl | hx
    · exact (reg.fresh hy hk).2
    · exact reg.serve hy (ih hx)
  | passed _ hp ih => exact reg.pass hp (ih hx)

/-- **An id is given out once.** -/
theorem eq_of_gives (hs : Served s s' xs) (hx : x ∈ xs) (hy : y ∈ xs)
    (hxk : reg.gives x.question x.reply = some k) (hyk : reg.gives y.question y.reply = some k) :
    x = y := by
  induction hs with
  | start => cases hx
  | handled hs hserve ih =>
    rcases List.mem_cons.1 hx with rfl | hxs <;> rcases List.mem_cons.1 hy with rfl | hys
    · rfl
    · exact absurd (used_of_served hs hys hyk) (reg.fresh hserve hxk).1
    · exact absurd (used_of_served hs hxs hxk) (reg.fresh hserve hyk).1
    · exact ih hxs hys
  | passed _ _ ih => exact ih hx hy

variable [DecidableEq τ] {clients : Nat → Client Q A τ} {t : Traffic S Q A τ}

theorem GivenTo.eq (h : reg.GivenTo t.log c k) (h' : reg.GivenTo t.log c' k)
    (run : Traffic.Run clients s t) : c = c' := by
  obtain ⟨x, hx, rfl, hxk⟩ := h
  obtain ⟨y, hy, rfl, hyk⟩ := h'
  rw [eq_of_gives run.served (mem_exchanges.2 hx) (mem_exchanges.2 hy) hxk hyk]

/-- **No two clients** have ever kept one id. -/
theorem home_eq_of_hasHeld (hR : reg.Minds R) (hb : R.Binds clients)
    (run : Traffic.Run clients s t) (hi : t.HasHeld i k) (hj : t.HasHeld j k) : i = j := by
  have sound := run.sound hb
  obtain ⟨c, rfl, hc⟩ := givenTo_of_granted hR sound.log (sound.granted hi)
  obtain ⟨c', rfl, hc'⟩ := givenTo_of_granted hR sound.log (sound.granted hj)
  rw [hc.eq hc' run]

/-- **What ends it** comes from the client that it was given to. -/
theorem EndedBy.home_eq (h : reg.EndedBy t.log c k) (h' : reg.GivenTo t.log c' k)
    (run : Traffic.Run clients s t) : c'.home = c.home := by
  cases h with
  | self h => rw [h.eq h' run]
  | release c'' _ _ hhome h => rw [← hhome, h.eq h' run]

end Register

end Network

end LeaseLock
