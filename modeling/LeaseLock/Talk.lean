/-!
# Conversations with a server

**Talks** (`Talk`). What a client says in the course of one operation. It asks questions, each of
which may hang on the answers so far, and comes to a result. A question may also be told, without
waiting for its answer.

**Debts.** A client that is cut off while it waits for an answer may owe the server something:
with every question goes a list of what is told in its stead if the answer never comes.

**Servers** (`Server`). A server answers a question, or never does. `Talk.run` holds a talk with
a server; it ends with the result, or with the debts of the question that found no answer.
-/

namespace LeaseLock

/-- What a client with questions in `Q` and answers in `A` says until it comes to a result. -/
inductive Talk (Q A α : Type) where
  | done (result : α)
  /-- Ask, and go on with the answer; `owed` is told if the answer is not awaited to the end. -/
  | ask (q : Q) (owed : List Q) (next : A → Talk Q A α)
  /-- Tell, and go on at once. -/
  | tell (q : Q) (next : Talk Q A α)

/-- A server with states in `S`. -/
class Server (S : Type) (Q A : outParam Type) where
  /-- Takes a question, and answers it unless it never will. -/
  answer : S → Q → S × Option A

namespace Talk

variable {S Q A α β : Type}

/-- Goes on with another talk. -/
def bind : Talk Q A α → (α → Talk Q A β) → Talk Q A β
  | done a, f => f a
  | ask q owed next, f => ask q owed fun a => (next a).bind f
  | tell q next, f => tell q (next.bind f)

instance : Monad (Talk Q A) where
  pure := done
  bind := bind

/-- Asks a single question. -/
def question (q : Q) : Talk Q A A := ask q [] done

/-- Tells a single thing. -/
def notice (q : Q) : Talk Q A Unit := tell q (done ())

/-- The talk with further debts on each of its questions. -/
def owing (debts : List Q) : Talk Q A α → Talk Q A α
  | done a => done a
  | ask q owed next => ask q (owed ++ debts) fun a => (next a).owing debts
  | tell q next => tell q (next.owing debts)

/-- Holds the talk with a server, up to its result or to a question without an answer. -/
def run [Server S Q A] (s : S) : Talk Q A α → S × Except (List Q) α
  | done a => (s, .ok a)
  | ask q owed next =>
    match Server.answer s q with
    | (s, some a) => (next a).run s
    | (s, none) => (s, .error owed)
  | tell q next => next.run (Server.answer s q).1

/-- Tells a server a list of things. -/
def tellAll [Server S Q A] (s : S) (qs : List Q) : S :=
  qs.foldl (fun s q => (Server.answer s q).1) s

@[simp] theorem pure_eq (a : α) : (pure a : Talk Q A α) = done a := rfl

@[simp] theorem bind_eq (t : Talk Q A α) (f : α → Talk Q A β) : t >>= f = t.bind f := rfl

@[simp] theorem done_bind (a : α) (f : α → Talk Q A β) : (done a).bind f = f a := rfl

@[simp] theorem ask_bind (q : Q) (owed : List Q) (next : A → Talk Q A α) (f : α → Talk Q A β) :
    (ask q owed next).bind f = ask q owed fun a => (next a).bind f := rfl

@[simp] theorem tell_bind (q : Q) (next : Talk Q A α) (f : α → Talk Q A β) :
    (tell q next).bind f = tell q (next.bind f) := rfl

/-- A talk followed by another is held by holding the first and then the second. -/
theorem run_bind [Server S Q A] (t : Talk Q A α) (f : α → Talk Q A β) (s : S) :
    (t.bind f).run s = match t.run s with
      | (s, .ok a) => (f a).run s
      | (s, .error owed) => (s, .error owed) := by
  induction t generalizing s with
  | done a => rfl
  | ask q owed next ih =>
    simp only [ask_bind, run]
    split
    · exact ih _ _
    · rfl
  | tell q next ih => exact ih _

end Talk

end LeaseLock
