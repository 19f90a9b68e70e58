import LeaseLock.Proofs.Locker.AtRest
import LeaseLock.Proofs.Memory.Records
import LeaseLock.Proofs.World.Runs

/-!
# Renewal over the store in memory

The store answers every call on the spot, so a locker over it is at rest after every move, and what
becomes of its renewal is one of five things (`Upkeep`). Main result: `upkeep_of_move`.
-/

namespace LeaseLock.Memory

open Locker (Event Entry History AtRest Steady Left Tending)
open Store
open World (Move)

variable {s s' : Store} {i : Nat} {now : Instant} {l l' : Locker} {h news : History}

/-- The store always answers, and its answer is taken: no call of a locker stays without one. -/
theorem answered_of_start {l₁ : Locker} {e : Event} {p : Party} {op : Op} {r : Reception}
    (run : Locker.Run l h) (hs : l.step now e = some (l₁, [.start p op]))
    (hb : Service.begin s ⟨i, .party p, l.options⟩ l.options op now = (s', r))
    (hn : ∀ a, r = .answered a → ∃ draw, l₁.answer now p a draw = none) : False := by
  obtain ⟨-, hso, -⟩ := run.sole_of_start hs
  rw [begin_eq] at hb
  cases hb
  obtain ⟨draw, hnone⟩ := hn _ rfl
  obtain ⟨l₂, fx, hsome⟩ := hso.exists_answer (op_answer s now l.options op) draw
  rw [hnone] at hsome
  cases hsome

/-- What a move makes of the store and of the renewal of a locker at rest. -/
inductive Upkeep (now : Instant) (s : Store) (l : Locker) : Store → Locker → History → Prop
  | steady {l' : Locker} {news : History} : Steady l l' → Upkeep now s l s l' news
  | granted {l' : Locker} {news : History} : (s.acquire now l.options).2 = .ok .granted →
      l'.phase = .held → l'.health = .healthy →
      l'.ticker = some (.start l.options.interval now) →
      Upkeep now s l (s.acquire now l.options).1 l' news
  /-- A caller has refreshed the record. -/
  | pushed {l' : Locker} {news : History} {n draw : Nat} {fx : List Locker.Effect} :
      l.phase = .held → Steady l l' →
      ⟨now, .answer (.caller n) (.refresh (s.refresh now l.options).2) draw, fx⟩ ∈ news →
      Upkeep now s l (s.refresh now l.options).1 l' news
  | ticked {l' : Locker} {news : History} {t t' : Ticker} : l.phase = .held →
      l.ticker = some t → t.due ≤ now → t'.renewed = t.renewed →
      t'.due = Ticker.nextDue l.options.interval t.due now → l'.phase = .held →
      l'.health =
        (t'.settle l.options.lease now (s.refresh now l.options).2).1.getD l.health →
      l'.ticker = (t'.settle l.options.lease now (s.refresh now l.options).2).2 →
      Upkeep now s l (s.refresh now l.options).1 l' news
  | left {s' : Store} {l' : Locker} {news : History} : Left l l' → Upkeep now s l s' l' news

theorem upkeep_of_answered {l₁ : Locker} {e : Event} {fx : List Locker.Effect} {p : Party}
    {op : Op} {draw : Nat} (run : Locker.Run l h) (hl : AtRest l) (he : e.isAnswer = false)
    (hs : l.step now e = some (l₁, [.start p op]))
    (ha : l₁.answer now p (s.answer now l.options op).2 draw = some (l', fx)) :
    AtRest l' ∧ Upkeep now s l (s.answer now l.options op).1 l'
      [⟨now, .answer p (s.answer now l.options op).2 draw, fx⟩, ⟨now, e, [.start p op]⟩] := by
  obtain ⟨hset, ht⟩ := hl.answered run he hs ha
  refine ⟨hset, ?_⟩
  cases op with
  | acquire =>
    have ht : Tending l now p (.acquire (s.acquire now l.options).2) l' := ht
    generalize hr : (s.acquire now l.options).2 = r at ht
    cases ht with
    | granted _ hp hh htk => exact .granted hr hp hh htk
    | refused hn hst =>
      have hsame : (s.answer now l.options .acquire).1 = s := by
        rcases acquire_cases s now l.options with ⟨ha, -⟩ | ⟨_, ha, -⟩
        · rw [ha] at hr
          exact absurd hr.symm hn
        · exact congrArg Prod.fst ha
      rw [hsame]
      exact .steady hst
  | refresh =>
    have ht : Tending l now p (.refresh (s.refresh now l.options).2) l' := ht
    cases ht with
    | pushed hp hst => exact .pushed hp hst List.mem_cons_self
    | ticked hp htk hd hrn hdue hp' hh htk' => exact .ticked hp htk hd hrn hdue hp' hh htk'
  | release =>
    have ht : Tending l now p (.release (s.release l.options).2) l' := ht
    cases ht with
    | left hleft => exact .left hleft

/-- **After a move a locker over the store is at rest**, and its renewal is kept up. -/
theorem upkeep_of_move (run : Locker.Run l h) (hl : AtRest l) (m : Move i now s l s' l' news) :
    AtRest l' ∧ Upkeep now s l s' l' news := by
  cases m with
  | moved he hs hr =>
    obtain ⟨hset, hst | hleft⟩ := hl.moved run he hs hr
    · exact ⟨hset, .steady hst⟩
    · exact ⟨hset, .left hleft⟩
  | @cut _ _ _ p _ he hs =>
    -- nobody has a call out that could be cut off
    cases hl.swift he hs with
    | turned _ t => exact absurd List.mem_cons_self (t.not_cut p)
  | asked _ hs hb hn => exact (answered_of_start run hs hb hn).elim
  | answered he hs hb ha =>
    rw [begin_eq] at hb
    cases hb
    exact upkeep_of_answered run hl he hs ha

theorem cutOff_of_move (m : Move i now s l s' l' news) : s'.cutOff = s.cutOff := by
  cases m with
  | moved => rfl
  | cut _ _ _ hsv =>
    obtain rfl : s' = s := hsv.elim id fun ⟨_, _, _, h⟩ => h
    rfl
  | asked _ _ hb | answered _ _ hb =>
    rw [begin_eq] at hb
    cases hb
    exact cutOff_answer ..

end LeaseLock.Memory
