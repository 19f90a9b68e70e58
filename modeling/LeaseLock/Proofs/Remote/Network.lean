import LeaseLock.Proofs.Remote.Talks
import LeaseLock.Remote
import Mathlib.Data.List.Nodup
import Mathlib.Logic.Function.Basic

/-!
# Many clients, one server and the way between them

**Hosts** (`Host`). A server handles one request at a time, and things happen to it that nobody
asks for. A failure may reach a client in place of a reply.

**The traffic** (`Traffic`). An operation waits for the reply to its question, which the server may
not have handled yet. When it is told of a failure or given up, an unhandled question and what is
owed then are strays: the server may still handle them at any time, or never. The token of a client
is written when an operation is over.

**The log.** It holds, the latest first, which operations began, which requests were handled and
which operations ended (`Entry`).

Whatever order the moves come in, each of them does one of a few things (`shift_of_step`).
-/

namespace LeaseLock

/-- A server that handles one request at a time. -/
class Host (S : Type) (Q A C E : outParam Type) where
  /-- Handles a request; the choice settles what the server is free to do. -/
  serve : S → Q → C → Option (S × A)
  /-- What happens to the server without a request. -/
  pass : S → E → Option S
  /-- The client may be told so whatever has become of its request. -/
  isFault : A → Bool

namespace Network

/-- The options that a locker was made with, and its adapter. -/
structure Client (Q A τ : Type) where
  own : Options
  adapter : Adapter Q A τ

/-- An operation that a client is to carry out. -/
structure Commission (τ : Type) where
  /-- The number of the client. -/
  home : Nat
  errand : Errand τ
  op : Op

/-- An operation on its way. -/
structure Dialogue (Q A τ : Type) where
  commission : Commission τ
  /-- What was asked and heard so far, the latest first. -/
  past : List (Q × A) := []
  /-- What it has left to say. -/
  talk : Talk Q A (Option τ × Answer)
  /-- The reply that is on its way. -/
  reply : Option A := none

/-- A request that nobody waits for. -/
structure Stray (Q A τ : Type) where
  commission : Commission τ
  past : List (Q × A)
  question : Q

/-- A request that was handled. -/
structure Exchange (S Q A τ : Type) where
  commission : Commission τ
  /-- What its operation had asked and heard before. -/
  past : List (Q × A)
  question : Q
  before : S
  after : S
  reply : A

inductive Entry (S Q A τ : Type) where
  | began (c : Commission τ)
  | handled (x : Exchange S Q A τ)
  /-- The operation has come to a token and an answer. -/
  | ended (c : Commission τ) (past : List (Q × A)) (result : Option τ × Answer)

structure Traffic (S Q A τ : Type) where
  server : S
  /-- The tokens of the clients. -/
  tokens : Nat → Option τ := fun _ => none
  dialogues : List (Dialogue Q A τ) := []
  strays : List (Stray Q A τ) := []
  /-- What has happened, the latest first. -/
  log : List (Entry S Q A τ) := []
  /-- How many operations have begun. -/
  calls : Nat := 0
  /-- How many of them were to acquire the lock. -/
  attempts : Nat := 0

inductive Move (A C E : Type) where
  /-- A client begins an operation. -/
  | begin (home : Nat) (o : Options) (op : Op)
  /-- The question of an operation is handled. -/
  | reach (k : Nat) (choice : C)
  /-- The reply reaches the operation. -/
  | hear (k : Nat)
  /-- A failure reaches the operation in place of the reply. -/
  | fail (k : Nat) (a : A)
  /-- An operation tells without waiting. -/
  | tell (k : Nat)
  /-- An operation is over. -/
  | finish (k : Nat)
  | giveUp (k : Nat)
  /-- A stray is handled. -/
  | arrive (j : Nat) (choice : C)
  /-- Something happens to the server. -/
  | pass (e : E)

variable {S Q A C E τ : Type}

/-- The token that a client keeps when an operation has come to a result. It is written by a grant,
and by an operation that has come to another token than it began with. -/
def Commission.settle [DecidableEq τ] (c : Commission τ) (r : Option τ × Answer)
    (kept : Option τ) : Option τ :=
  match r with
  | (some k, .acquire (.ok .granted)) => some k
  | (token, _) => if token = c.errand.token then kept else token

/-- The strays that an operation leaves behind. -/
def Dialogue.leave (d : Dialogue Q A τ) (qs : List Q) : List (Stray Q A τ) :=
  qs.map (⟨d.commission, d.past, ·⟩)

/-- A question is a stray if it has not been handled. -/
def Dialogue.unhandled (d : Dialogue Q A τ) (q : Q) : List Q := if d.reply.isSome then [] else [q]

/-- An answer to its question has come, and the rest of the talk is left. -/
def Dialogue.heard (d : Dialogue Q A τ) (q : Q) (a : A) (talk : Talk Q A (Option τ × Answer)) :
    Dialogue Q A τ :=
  { d with past := (q, a) :: d.past, talk, reply := none }

namespace Traffic

variable [Host S Q A C E] [DecidableEq τ] {clients : Nat → Client Q A τ}
  {t t' : Traffic S Q A τ} {d : Dialogue Q A τ}

def begin (t : Traffic S Q A τ) (client : Client Q A τ) (home : Nat) (o : Options) (op : Op) :
    Traffic S Q A τ :=
  let c : Commission τ := ⟨home, ⟨client.own, o, t.tokens home, t.calls, t.attempts⟩, op⟩
  { t with
    dialogues := t.dialogues ++ [{ commission := c, talk := client.adapter c.errand op }]
    log := .began c :: t.log
    calls := t.calls + 1
    attempts := if op = .acquire then t.attempts + 1 else t.attempts }

def reach (t : Traffic S Q A τ) (k : Nat) (choice : C) (d : Dialogue Q A τ) :
    Option (Traffic S Q A τ) :=
  match d.talk, d.reply with
  | .ask q _ _, none => (Host.serve t.server q choice).map fun (s, a) => { t with
      server := s
      dialogues := t.dialogues.set k { d with reply := some a }
      log := .handled ⟨d.commission, d.past, q, t.server, s, a⟩ :: t.log }
  | _, _ => none

def hear (t : Traffic S Q A τ) (k : Nat) (d : Dialogue Q A τ) : Option (Traffic S Q A τ) :=
  match d.talk, d.reply with
  | .ask q _ next, some a =>
    some { t with dialogues := t.dialogues.set k (d.heard q a (next a)) }
  | _, _ => none

def fail (t : Traffic S Q A τ) (k : Nat) (a : A) (d : Dialogue Q A τ) :
    Option (Traffic S Q A τ) :=
  match d.talk, Host.isFault S a with
  | .ask q _ next, true => some { t with
      dialogues := t.dialogues.set k (d.heard q a (next a))
      strays := d.leave (d.unhandled q) ++ t.strays }
  | _, _ => none

def tell (t : Traffic S Q A τ) (k : Nat) (d : Dialogue Q A τ) : Option (Traffic S Q A τ) :=
  match d.talk with
  | .tell q next => some { t with
      dialogues := t.dialogues.set k { d with talk := next, reply := none }
      strays := d.leave [q] ++ t.strays }
  | _ => none

def finish (t : Traffic S Q A τ) (k : Nat) (d : Dialogue Q A τ) : Option (Traffic S Q A τ) :=
  match d.talk with
  | .done r =>
    let c := d.commission
    some { t with
      tokens := Function.update t.tokens c.home (c.settle r (t.tokens c.home))
      dialogues := t.dialogues.eraseIdx k
      log := .ended c d.past r :: t.log }
  | _ => none

def giveUp (t : Traffic S Q A τ) (k : Nat) (d : Dialogue Q A τ) : Option (Traffic S Q A τ) :=
  match d.talk with
  | .ask q owed _ => some { t with
      dialogues := t.dialogues.eraseIdx k
      strays := d.leave (d.unhandled q ++ owed) ++ t.strays }
  | _ => none

def arrive (t : Traffic S Q A τ) (j : Nat) (choice : C) (z : Stray Q A τ) :
    Option (Traffic S Q A τ) :=
  (Host.serve t.server z.question choice).map fun (s, a) => { t with
    server := s
    strays := t.strays.eraseIdx j
    log := .handled ⟨z.commission, z.past, z.question, t.server, s, a⟩ :: t.log }

def step (clients : Nat → Client Q A τ) (t : Traffic S Q A τ) :
    Move A C E → Option (Traffic S Q A τ)
  | .begin home o op => some (t.begin (clients home) home o op)
  | .reach k choice => t.dialogues[k]?.bind (t.reach k choice)
  | .hear k => t.dialogues[k]?.bind (t.hear k)
  | .fail k a => t.dialogues[k]?.bind (t.fail k a)
  | .tell k => t.dialogues[k]?.bind (t.tell k)
  | .finish k => t.dialogues[k]?.bind (t.finish k)
  | .giveUp k => t.dialogues[k]?.bind (t.giveUp k)
  | .arrive j choice => t.strays[j]?.bind (t.arrive j choice)
  | .pass e => (Host.pass t.server e).map fun s => { t with server := s }

/-- What has come out of a server by moves. -/
inductive Run (clients : Nat → Client Q A τ) (server : S) : Traffic S Q A τ → Prop
  | start : Run clients server { server }
  | step {t t' : Traffic S Q A τ} {m : Move A C E} : Run clients server t →
      t.step clients m = some t' → Run clients server t'

/-- What becomes of the traffic by the moves given, the first one first. -/
def replay (clients : Nat → Client Q A τ) :
    Traffic S Q A τ → List (Move A C E) → Option (Traffic S Q A τ)
  | t, [] => some t
  | t, m :: ms => match t.step clients m with
    | some t' => replay clients t' ms
    | none => none

theorem Run.replay {s : S} {ms : List (Move A C E)} (run : Run clients s t)
    (hr : replay clients t ms = some t') : Run clients s t' := by
  induction ms generalizing t with
  | nil =>
    cases hr
    exact run
  | cons m ms ih =>
    unfold Traffic.replay at hr
    split at hr
    next t₁ hs => exact ih (run.step hs) hr
    · cases hr

/-- There is a run by the moves given, if it can be computed. -/
theorem exists_run {s : S} {p : Traffic S Q A τ → Bool} (ms : List (Move A C E))
    (h : (replay clients { server := s } ms).any p = true) : ∃ t, Run clients s t ∧ p t = true := by
  cases hr : replay clients { server := s } ms with
  | none =>
    rw [hr] at h
    cases h
  | some t =>
    rw [hr] at h
    exact ⟨t, Run.start.replay hr, h⟩

/-- What a move does: one constructor for each kind. -/
inductive Shift (clients : Nat → Client Q A τ) (t : Traffic S Q A τ) : Traffic S Q A τ → Prop
  | begun (home : Nat) (o : Options) (op : Op) : Shift clients t (t.begin (clients home) home o op)
  | reached {k : Nat} {d : Dialogue Q A τ} {q : Q} {owed : List Q}
      {next : A → Talk Q A (Option τ × Answer)} {choice : C} {s : S} {a : A} :
      t.dialogues[k]? = some d → d.talk = .ask q owed next → d.reply = none →
      Host.serve t.server q choice = some (s, a) →
      Shift clients t { t with
        server := s
        dialogues := t.dialogues.set k { d with reply := some a }
        log := .handled ⟨d.commission, d.past, q, t.server, s, a⟩ :: t.log }
  | heard {k : Nat} {d : Dialogue Q A τ} {q : Q} {owed : List Q}
      {next : A → Talk Q A (Option τ × Answer)} {a : A} :
      t.dialogues[k]? = some d → d.talk = .ask q owed next → d.reply = some a →
      Shift clients t { t with dialogues := t.dialogues.set k (d.heard q a (next a)) }
  | failed {k : Nat} {d : Dialogue Q A τ} {q : Q} {owed : List Q}
      {next : A → Talk Q A (Option τ × Answer)} {a : A} :
      t.dialogues[k]? = some d → d.talk = .ask q owed next → Host.isFault S a = true →
      Shift clients t { t with
        dialogues := t.dialogues.set k (d.heard q a (next a))
        strays := d.leave (d.unhandled q) ++ t.strays }
  | told {k : Nat} {d : Dialogue Q A τ} {q : Q} {next : Talk Q A (Option τ × Answer)} :
      t.dialogues[k]? = some d → d.talk = .tell q next →
      Shift clients t { t with
        dialogues := t.dialogues.set k { d with talk := next, reply := none }
        strays := d.leave [q] ++ t.strays }
  | finished {k : Nat} {d : Dialogue Q A τ} {r : Option τ × Answer} :
      t.dialogues[k]? = some d → d.talk = .done r →
      Shift clients t { t with
        tokens := Function.update t.tokens d.commission.home
          (d.commission.settle r (t.tokens d.commission.home))
        dialogues := t.dialogues.eraseIdx k
        log := .ended d.commission d.past r :: t.log }
  | gaveUp {k : Nat} {d : Dialogue Q A τ} {q : Q} {owed : List Q}
      {next : A → Talk Q A (Option τ × Answer)} :
      t.dialogues[k]? = some d → d.talk = .ask q owed next →
      Shift clients t { t with
        dialogues := t.dialogues.eraseIdx k
        strays := d.leave (d.unhandled q ++ owed) ++ t.strays }
  | arrived {j : Nat} {z : Stray Q A τ} {choice : C} {s : S} {a : A} :
      t.strays[j]? = some z → Host.serve t.server z.question choice = some (s, a) →
      Shift clients t { t with
        server := s
        strays := t.strays.eraseIdx j
        log := .handled ⟨z.commission, z.past, z.question, t.server, s, a⟩ :: t.log }
  | passed {e : E} {s : S} : Host.pass t.server e = some s →
      Shift clients t { t with server := s }

theorem shift_of_step {m : Move A C E} (h : t.step clients m = some t') : Shift clients t t' := by
  cases m with
  | begin home o op =>
    cases h
    exact .begun home o op
  | reach k choice =>
    obtain ⟨d, hd, hs⟩ := Option.bind_eq_some_iff.1 h
    unfold reach at hs
    split at hs
    next q owed next ht hr =>
      obtain ⟨⟨s, a⟩, hserve, rfl⟩ := Option.map_eq_some_iff.1 hs
      exact .reached hd ht hr hserve
    · cases hs
  | hear k =>
    obtain ⟨d, hd, hs⟩ := Option.bind_eq_some_iff.1 h
    unfold hear at hs
    split at hs
    next q owed next a ht hr =>
      cases hs
      exact .heard hd ht hr
    · cases hs
  | fail k a =>
    obtain ⟨d, hd, hs⟩ := Option.bind_eq_some_iff.1 h
    unfold fail at hs
    split at hs
    next q owed next ht hf =>
      cases hs
      exact .failed hd ht hf
    · cases hs
  | tell k =>
    obtain ⟨d, hd, hs⟩ := Option.bind_eq_some_iff.1 h
    unfold tell at hs
    split at hs
    next q next ht =>
      cases hs
      exact .told hd ht
    · cases hs
  | finish k =>
    obtain ⟨d, hd, hs⟩ := Option.bind_eq_some_iff.1 h
    unfold finish at hs
    split at hs
    next r ht =>
      cases hs
      exact .finished hd ht
    · cases hs
  | giveUp k =>
    obtain ⟨d, hd, hs⟩ := Option.bind_eq_some_iff.1 h
    unfold giveUp at hs
    split at hs
    next q owed next ht =>
      cases hs
      exact .gaveUp hd ht
    · cases hs
  | arrive j choice =>
    obtain ⟨z, hz, hs⟩ := Option.bind_eq_some_iff.1 h
    obtain ⟨⟨s, a⟩, hserve, rfl⟩ := Option.map_eq_some_iff.1 hs
    exact .arrived hz hserve
  | pass e =>
    obtain ⟨s, hs, rfl⟩ := Option.map_eq_some_iff.1 h
    exact .passed hs

end Traffic

end Network

end LeaseLock
