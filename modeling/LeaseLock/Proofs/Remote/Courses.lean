import LeaseLock.Proofs.Remote.Renewal

/-!
# The courses of a talk

**Courses** (`Talk.Course`). All the ways in which a talk can go: every question may find any
answer, and at every question the client may be cut off, and then what it owes is told. A course
lists what was sent, in order, each question with the answer that was heard, and the result, if the
talk came to one.

**Taking a course apart.** A bound talk goes through the first talk and then the second, or is cut
off in the first (`Course.of_bind`); debts are told last (`Course.of_owing`). What is sent on it is
sent as the rule of the talk has it (`Course.exists_may`).

**Courses there are.** However it is answered, a talk comes to a result unless it is cut off
(`exists_course`); `courseOf` computes the course for given answers.

**Calls** (`Remote.call_follows`). A call to a service behind a server takes one of the courses of
its talk, with that server's answers. The server has then been told what was sent and nothing else,
and the token that is kept is the one of the result; a call that is given up leaves the token alone
(`kept`).
-/

namespace LeaseLock

variable {S Q A α β τ : Type}

namespace Talk

variable {q : Q} {owed debts : List Q} {next : A → Talk Q A α} {t : Talk Q A α}
  {f : α → Talk Q A β} {a : α} {sent : List (Q × Option A)} {r : Option α} {P : α → Prop}

/-- What a talk may come to send and to hear, and its result, unless it is cut off. -/
inductive Course : Talk Q A α → List (Q × Option A) → Option α → Prop
  | done {a : α} : Course (.done a) [] (some a)
  | heard {q : Q} {owed : List Q} {next : A → Talk Q A α} {b : A} {sent : List (Q × Option A)}
      {r : Option α} : Course (next b) sent r → Course (.ask q owed next) ((q, some b) :: sent) r
  /-- The client is cut off while it waits, and what it owes is told. -/
  | cut {q : Q} {owed : List Q} {next : A → Talk Q A α} :
      Course (.ask q owed next) ((q, none) :: owed.map (·, none)) none
  | told {q : Q} {next : Talk Q A α} {sent : List (Q × Option A)} {r : Option α} :
      Course next sent r → Course (.tell q next) ((q, none) :: sent) r

namespace Course

theorem of_done (h : Course (.done a : Talk Q A α) sent r) : sent = [] ∧ r = some a := by
  cases h
  exact ⟨rfl, rfl⟩

/-- A question finds an answer, or the client is cut off while it waits. -/
theorem of_ask (h : Course (.ask q owed next) sent r) :
    (∃ b s, sent = (q, some b) :: s ∧ Course (next b) s r) ∨
      sent = (q, none) :: owed.map (·, none) ∧ r = none := by
  cases h with
  | heard h => exact .inl ⟨_, _, rfl, h⟩
  | cut => exact .inr ⟨rfl, rfl⟩

theorem of_question {r : Option A} (h : Course (question q : Talk Q A A) sent r) :
    (∃ b, sent = [(q, some b)] ∧ r = some b) ∨ sent = [(q, none)] ∧ r = none := by
  rcases h.of_ask with ⟨b, s, rfl, hs⟩ | hcut
  · obtain ⟨rfl, rfl⟩ := hs.of_done
    exact .inl ⟨b, rfl, rfl⟩
  · exact .inr hcut

/-- A bound talk goes on with the result of the first part, or is cut off there. -/
theorem of_bind {r : Option β} (h : Course (t.bind f) sent r) :
    (∃ a s₁ s₂, sent = s₁ ++ s₂ ∧ Course t s₁ (some a) ∧ Course (f a) s₂ r) ∨
      r = none ∧ Course t sent none := by
  induction t generalizing sent with
  | done a => exact .inl ⟨a, [], sent, rfl, .done, h⟩
  | ask q owed next ih =>
    rcases of_ask h with ⟨b, s, rfl, hs⟩ | ⟨rfl, rfl⟩
    · rcases ih b hs with ⟨a, s₁, s₂, rfl, h₁, h₂⟩ | ⟨rfl, hcut⟩
      · exact .inl ⟨a, (q, some b) :: s₁, s₂, rfl, .heard h₁, h₂⟩
      · exact .inr ⟨rfl, .heard hcut⟩
    · exact .inr ⟨rfl, .cut⟩
  | tell q next ih =>
    cases h with
    | told hs =>
      rcases ih hs with ⟨a, s₁, s₂, rfl, h₁, h₂⟩ | ⟨rfl, hcut⟩
      · exact .inl ⟨a, (q, none) :: s₁, s₂, rfl, .told h₁, h₂⟩
      · exact .inr ⟨rfl, .told hcut⟩

theorem of_map {g : α → β} {r : Option β} (h : Course (t.bind fun a => .done (g a)) sent r) :
    ∃ r', r = r'.map g ∧ Course t sent r' := by
  rcases of_bind h with ⟨a, s₁, s₂, rfl, h₁, h₂⟩ | ⟨rfl, hcut⟩
  · obtain ⟨rfl, rfl⟩ := of_done h₂
    rw [List.append_nil]
    exact ⟨some a, rfl, h₁⟩
  · exact ⟨none, rfl, hcut⟩

theorem of_discard {r : Option Unit} (h : Course (Functor.discard t) sent r) :
    ∃ r', r = r'.map (fun _ => ()) ∧ Course t sent r' := of_map h

theorem of_reading {g : A → α} (h : Course ((question q).bind fun b => .done (g b)) sent r) :
    (∃ b, sent = [(q, some b)] ∧ r = some (g b)) ∨ sent = [(q, none)] ∧ r = none := by
  obtain ⟨r', rfl, hq⟩ := of_map h
  rcases of_question hq with ⟨b, rfl, rfl⟩ | ⟨rfl, rfl⟩
  · exact .inl ⟨b, rfl, rfl⟩
  · exact .inr ⟨rfl, rfl⟩

theorem of_read {g : A → α} {r : Option β}
    (h : Course (((question q).bind fun b => .done (g b)).bind f) sent r) :
    (∃ b s, sent = (q, some b) :: s ∧ Course (f (g b)) s r) ∨ sent = [(q, none)] ∧ r = none :=
  of_ask h

/-- Debts are told if the client is cut off, after all that was sent. -/
theorem of_owing (h : Course (t.owing debts) sent r) :
    (∃ a, r = some a ∧ Course t sent (some a)) ∨
      r = none ∧ ∃ s, sent = s ++ debts.map (·, none) ∧ Course t s none := by
  induction t generalizing sent with
  | done a =>
    obtain ⟨rfl, rfl⟩ := of_done h
    exact .inl ⟨a, rfl, .done⟩
  | ask q owed next ih =>
    rcases of_ask h with ⟨b, s, rfl, hs⟩ | ⟨rfl, rfl⟩
    · rcases ih b hs with ⟨a, rfl, hdone⟩ | ⟨rfl, s', rfl, hcut⟩
      · exact .inl ⟨a, rfl, .heard hdone⟩
      · exact .inr ⟨rfl, (q, some b) :: s', rfl, .heard hcut⟩
    · refine .inr ⟨rfl, (q, none) :: owed.map (·, none), ?_, .cut⟩
      rw [List.map_append]
      rfl
  | tell q next ih =>
    cases h with
    | told hs =>
      rcases ih hs with ⟨a, rfl, hdone⟩ | ⟨rfl, s', rfl, hcut⟩
      · exact .inl ⟨a, rfl, .told hdone⟩
      · exact .inr ⟨rfl, (q, none) :: s', rfl, .told hcut⟩

theorem ends (h : Course t sent (some a)) (ht : t.Ends P) : P a := by
  induction t generalizing sent with
  | done b =>
    cases h
    exact ht
  | ask q owed next ih =>
    cases h with
    | heard h => exact ih _ h (ht _)
  | tell q next ih =>
    cases h with
    | told h => exact ih h ht

/-- Whatever is sent on a course is sent as the rule of the talk has it. -/
theorem exists_may {may : List (Q × A) → Q → Prop} {ends : List (Q × A) → α → Prop}
    {past : List (Q × A)} (h : Course t sent r) (ht : t.Keeps may ends past) :
    ∀ p ∈ sent, ∃ past, may past p.1 := by
  induction h generalizing past with
  | done => exact List.forall_mem_nil _
  | heard h ih => exact List.forall_mem_cons.2 ⟨⟨_, ht.1⟩, ih (ht.2.2 _)⟩
  | cut =>
    refine List.forall_mem_cons.2 ⟨⟨_, ht.1⟩, fun p hp => ?_⟩
    obtain ⟨d, hd, rfl⟩ := List.mem_map.1 hp
    exact ⟨_, ht.2.1 d hd⟩
  | told h ih => exact List.forall_mem_cons.2 ⟨⟨_, ht.1⟩, ih ht.2⟩

theorem said {P : Q → Prop} (h : Course t sent r) (ht : t.Says P) : ∀ p ∈ sent, P p.1 := by
  intro p hp
  obtain ⟨_, hp⟩ := h.exists_may (ht []) p hp
  exact hp

end Course

/-- The answers that were heard, in order. -/
def heard (sent : List (Q × Option A)) : List A := sent.filterMap Prod.snd

/-- However it is answered, a talk that is not cut off comes to a result. -/
theorem exists_course (t : Talk Q A α) (answers : Nat → A) :
    ∃ sent a n, Course t sent (some a) ∧ heard sent = (List.range n).map answers := by
  induction t generalizing answers with
  | done a => exact ⟨[], a, 0, .done, rfl⟩
  | ask q owed next ih =>
    obtain ⟨sent, a, n, h, hheard⟩ := ih (answers 0) fun i => answers (i + 1)
    refine ⟨(q, some (answers 0)) :: sent, a, n + 1, .heard h, ?_⟩
    rw [List.range_succ_eq_map, List.map_cons, List.map_map]
    exact congrArg (answers 0 :: ·) hheard
  | tell q next ih =>
    obtain ⟨sent, a, n, h, hheard⟩ := ih answers
    exact ⟨(q, none) :: sent, a, n, .told h, hheard⟩

/-- The course that the talk goes with these answers; where they run out, it is cut off. -/
def courseOf : Talk Q A α → List A → List (Q × Option A) × Option α
  | done a, _ => ([], some a)
  | ask q owed _, [] => ((q, none) :: owed.map (·, none), none)
  | ask q _ next, b :: answers =>
    let (sent, r) := courseOf (next b) answers
    ((q, some b) :: sent, r)
  | tell q next, answers =>
    let (sent, r) := courseOf next answers
    ((q, none) :: sent, r)

theorem course_courseOf (t : Talk Q A α) (answers : List A) :
    Course t (t.courseOf answers).1 (t.courseOf answers).2 := by
  induction t generalizing answers with
  | done a => exact .done
  | ask q owed next ih =>
    cases answers with
    | nil => exact .cut
    | cons b answers => exact .heard (ih b answers)
  | tell q next ih => exact .told (ih answers)

/-- What the first answer that gives something gives. -/
def given (gives : Q → A → Option τ) (sent : List (Q × Option A)) : Option τ :=
  sent.findSome? fun p => p.2.bind (gives p.1)

/-! ## Courses with a server -/

variable [Server S Q A] {s s' : S}

/-- A talk that is held with a server to its end takes a course. -/
theorem course_of_run (hr : t.run s = (s', .ok a)) :
    ∃ sent, Course t sent (some a) ∧ s' = tellAll s (sent.map Prod.fst) := by
  induction t generalizing s with
  | done b =>
    cases hr
    exact ⟨[], .done, rfl⟩
  | ask q owed next ih =>
    unfold run at hr
    split at hr
    next s₁ b hb =>
      obtain ⟨sent, h, rfl⟩ := ih b hr
      refine ⟨(q, some b) :: sent, .heard h, ?_⟩
      show _ = tellAll (Server.answer s q).1 _
      rw [hb]
    · cases hr
  | tell q next ih =>
    obtain ⟨sent, h, rfl⟩ := ih hr
    exact ⟨(q, none) :: sent, .told h, rfl⟩

/-- So does a talk that finds no answer, once its debts are told. -/
theorem course_of_cut (hr : t.run s = (s', .error owed)) :
    ∃ sent, Course t sent none ∧ tellAll s' owed = tellAll s (sent.map Prod.fst) := by
  induction t generalizing s with
  | done b => cases hr
  | ask q debts next ih =>
    unfold run at hr
    split at hr
    next s₁ b hb =>
      obtain ⟨sent, h, hs⟩ := ih b hr
      refine ⟨(q, some b) :: sent, .heard h, ?_⟩
      rw [hs]
      show _ = tellAll (Server.answer s q).1 _
      rw [hb]
    next s₁ hb =>
      cases hr
      refine ⟨_, .cut, ?_⟩
      show _ = tellAll (Server.answer s q).1 ((owed.map (·, none)).map Prod.fst)
      rw [hb, List.map_map]
      exact congrArg _ (List.map_id owed).symm
  | tell q next ih =>
    obtain ⟨sent, h, hs⟩ := ih hr
    exact ⟨(q, none) :: sent, .told h, hs⟩

/-- What was heard is what the server says, and this is how it leaves the server. -/
inductive Replied : S → List (Q × Option A) → S → Prop
  | nil {s : S} : Replied s [] s
  | heard {s s₁ s' : S} {q : Q} {b : A} {sent : List (Q × Option A)} :
      Server.answer s q = (s₁, some b) → Replied s₁ sent s' → Replied s ((q, some b) :: sent) s'
  | told {s s' : S} {q : Q} {sent : List (Q × Option A)} :
      Replied (Server.answer s q).1 sent s' → Replied s ((q, none) :: sent) s'

/-- What is heard on the course that a talk takes with a server is what this server says. -/
theorem replied_of_run (hr : t.run s = (s', .ok a)) :
    ∃ sent, Course t sent (some a) ∧ Replied s sent s' := by
  induction t generalizing s with
  | done b =>
    cases hr
    exact ⟨[], .done, .nil⟩
  | ask q owed next ih =>
    unfold run at hr
    split at hr
    next s₁ b hb =>
      obtain ⟨sent, hcourse, hreplied⟩ := ih b hr
      exact ⟨(q, some b) :: sent, .heard hcourse, .heard hb hreplied⟩
    · cases hr
  | tell q next ih =>
    obtain ⟨sent, hcourse, hreplied⟩ := ih hr
    exact ⟨(q, none) :: sent, .told hcourse, .told hreplied⟩

theorem run_question {b : A} (h : Server.answer s q = (s', some b)) :
    (question q : Talk Q A A).run s = (s', .ok b) := by
  rw [question, run, h]
  rfl

theorem run_owing (h : t.run s = (s', .ok a)) : (t.owing debts).run s = (s', .ok a) := by
  induction t generalizing s with
  | done b => exact h
  | ask q owed next ih =>
    unfold run at h
    rw [owing, run]
    split at h
    next s₁ b hb => exact ih b h
    · cases h
  | tell q next ih => exact ih h

/-! ## Results with a server -/

variable {P : S → α → Prop}

/-- With this server, the talk comes to a result, and both are then as `P` says. -/
def Ensures (t : Talk Q A α) (s : S) (P : S → α → Prop) : Prop :=
  ∃ s' a, t.run s = (s', .ok a) ∧ P s' a

theorem ensures_done (h : P s a) : (done a : Talk Q A α).Ensures s P := ⟨s, a, rfl, h⟩

theorem ensures_question {P : S → A → Prop} {b : A} (h : Server.answer s q = (s', some b))
    (hP : P s' b) : (question q).Ensures s P :=
  ⟨s', b, run_question h, hP⟩

theorem ensures_tell (h : t.Ensures (Server.answer s q).1 P) : (tell q t).Ensures s P := h

namespace Ensures

theorem mono {P' : S → α → Prop} (h : t.Ensures s P) (hP : ∀ s a, P s a → P' s a) :
    t.Ensures s P' := by
  obtain ⟨s', a, hr, ha⟩ := h
  exact ⟨s', a, hr, hP s' a ha⟩

theorem bind {P' : S → β → Prop} (h : t.Ensures s P) (hf : ∀ s a, P s a → (f a).Ensures s P') :
    (t.bind f).Ensures s P' := by
  obtain ⟨s', a, hr, ha⟩ := h
  obtain ⟨s'', b, hr', hb⟩ := hf s' a ha
  exact ⟨s'', b, by rw [run_bind, hr]; exact hr', hb⟩

theorem owing (h : t.Ensures s P) : (t.owing debts).Ensures s P := by
  obtain ⟨s', a, hr, ha⟩ := h
  exact ⟨s', a, run_owing hr, ha⟩

end Ensures

end Talk

/-! ## Calls -/

/-- The token that is kept after a call: that of its result, and the old one if it came to none. -/
def kept (token : Option τ) (result : Option (Option τ × Answer)) : Option τ :=
  result.elim token Prod.fst

namespace Remote

variable [Server S Q A]

/-- What a call needs to know. -/
def errand (r : Remote S Q A τ) (site : Site) (o : Options) : Errand τ :=
  ⟨site.own, o, r.token? site.home, r.calls, r.attempts⟩

/-- What a call leaves behind when it is over: answered, or given up. -/
def settled (r : Remote S Q A τ) (site : Site) (o : Options) (op : Op) : Remote S Q A τ :=
  match r.call site o op with
  | (r', .silent) => r'.abandon site
  | (r', _) => r'

/-- **A call takes a course of its talk.** The server is told what was sent, and the token is kept
as the result says. -/
theorem call_follows (r : Remote S Q A τ) (site : Site) (o : Options) (op : Op) :
    ∃ sent result, (r.adapter (r.errand site o) op).Course sent result ∧
      (r.settled site o op).server = Talk.tellAll r.server (sent.map Prod.fst) ∧
      (r.settled site o op).token? site.home = kept (r.token? site.home) result ∧
      ∀ a, (r.call site o op).2 = .answered a ↔ ∃ token, result = some (token, a) := by
  unfold settled call
  cases hr : (r.adapter (r.errand site o) op).run r.server with
  | mk server outcome =>
    unfold errand at hr
    cases outcome with
    | ok x =>
      obtain ⟨token, a⟩ := x
      obtain ⟨sent, hcourse, hserver⟩ := Talk.course_of_run hr
      refine ⟨sent, some (token, a), hcourse, ?_, ?_, ?_⟩
      · simp only [hr]
        exact hserver
      · simp only [hr]
        rw [token?_keep, if_pos rfl]
        rfl
      · intro a'
        simp only [hr]
        constructor
        · intro h
          cases h
          exact ⟨token, rfl⟩
        · rintro ⟨_, h⟩
          cases h
          rfl
    | error owed =>
      obtain ⟨sent, hcourse, hserver⟩ := Talk.course_of_cut hr
      refine ⟨sent, none, hcourse, ?_, ?_, ?_⟩
      · simp only [hr, abandon, List.lookup_cons_self]
        exact hserver
      · simp only [hr]
        rw [abandon_token?]
        rfl
      · intro a'
        simp only [hr]
        constructor
        · intro h
          cases h
        · rintro ⟨_, h⟩
          cases h

theorem settled_of_answered {r : Remote S Q A τ} {site : Site} {o : Options} {op : Op} {a : Answer}
    (h : (r.call site o op).2 = .answered a) : r.settled site o op = (r.call site o op).1 := by
  unfold settled
  split
  next heq =>
    rw [heq] at h
    cases h
  next heq => rw [heq]

end Remote

end LeaseLock
