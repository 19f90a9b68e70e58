import LeaseLock.Proofs.Remote.Network

/-!
# What the log tells

**Rules** (`Rule`). What the clients may say in the course of an operation, and what they may come
to, given what they have heard. If their adapters keep the rule, so does everything in the traffic,
and every memory is a true one: what an operation has heard is a failure, or what the server has
replied to it (`Recalls`).

**Order** (`Orderly`). Each entry of the log is proper given those before it: tokens come from
operations that ended before, and operations are numbered as they begin.

**The server** (`Served`). Its states come from the requests that it has handled.

Main results: `Run.sound` and `Run.served`.
-/

namespace LeaseLock.Network

variable {S Q A C E τ : Type}

/-! ## Entries in order -/

/-- What clients may say, and what they may come to, given what they have heard. -/
structure Rule (Q A τ : Type) where
  may : Commission τ → List (Q × A) → Q → Prop
  ends : Commission τ → List (Q × A) → Option τ × Answer → Prop

/-- The adapters of the clients keep the rule. -/
def Rule.Binds (R : Rule Q A τ) (clients : Nat → Client Q A τ) : Prop :=
  ∀ c : Commission τ, ((clients c.home).adapter c.errand c.op).Keeps (R.may c) (R.ends c) []

/-- The server has replied so to a question of the operation. -/
def Replied (log : List (Entry S Q A τ)) (c : Commission τ) (q : Q) (a : A) : Prop :=
  ∃ x : Exchange S Q A τ, .handled x ∈ log ∧ x.commission = c ∧ x.question = q ∧ x.reply = a

/-- An operation of the client has come to the token, and has written it. -/
def Granted (log : List (Entry S Q A τ)) (home : Nat) (k : τ) : Prop :=
  ∃ c past a, .ended c past (some k, a) ∈ log ∧ c.home = home ∧
    (c.errand.token ≠ some k ∨ a = .acquire (.ok .granted))

variable [Host S Q A C E] {R : Rule Q A τ} {log log' newer earlier : List (Entry S Q A τ)}
  {e : Entry S Q A τ} {c c' : Commission τ} {past : List (Q × A)} {x : Exchange S Q A τ} {q : Q}
  {a : A} {home : Nat} {k : τ}

/-- The operation has begun, and remembers nothing but failures and replies. -/
structure Recalls (log : List (Entry S Q A τ)) (c : Commission τ) (past : List (Q × A)) : Prop where
  began : .began c ∈ log
  heard : ∀ q a, (q, a) ∈ past → Host.isFault S a = true ∨ Replied log c q a

/-- What an entry has to be, given those before it. -/
inductive Proper (R : Rule Q A τ) (log : List (Entry S Q A τ)) : Entry S Q A τ → Prop
  | began {c : Commission τ} : (∀ k, c.errand.token = some k → Granted log c.home k) →
      (∀ c', .began c' ∈ log → c'.errand.calls < c.errand.calls ∧
        (c'.op = .acquire → c'.errand.attempts < c.errand.attempts)) →
      Proper R log (.began c)
  | handled {x : Exchange S Q A τ} : Recalls log x.commission x.past →
      R.may x.commission x.past x.question → Proper R log (.handled x)
  | ended {c : Commission τ} {past : List (Q × A)} {r : Option τ × Answer} :
      Recalls log c past → R.ends c past r → Proper R log (.ended c past r)

/-- Every entry is proper given those before it. -/
inductive Orderly (R : Rule Q A τ) : List (Entry S Q A τ) → Prop
  | nil : Orderly R []
  | cons {log : List (Entry S Q A τ)} {e : Entry S Q A τ} :
      Proper R log e → Orderly R log → Orderly R (e :: log)

omit [Host S Q A C E] in
theorem Replied.mono (h : Replied log c q a) (hl : log ⊆ log') : Replied log' c q a := by
  obtain ⟨x, hx, hxc⟩ := h
  exact ⟨x, hl hx, hxc⟩

omit [Host S Q A C E] in
theorem Granted.mono (h : Granted log home k) (hl : log ⊆ log') : Granted log' home k := by
  obtain ⟨c, past, a, hc, h⟩ := h
  exact ⟨c, past, a, hl hc, h⟩

theorem Recalls.mono (h : Recalls log c past) (hl : log ⊆ log') : Recalls log' c past where
  began := hl h.began
  heard q a hm := (h.heard q a hm).imp_right (·.mono hl)

theorem Recalls.cons (h : Recalls log c past)
    (ha : Host.isFault S a = true ∨ Replied log c q a) : Recalls log c ((q, a) :: past) where
  began := h.began
  heard q' a' hm := by
    rcases List.mem_cons.1 hm with heq | hm
    · cases heq
      exact ha
    · exact h.heard q' a' hm

theorem Orderly.of_append (h : Orderly R (newer ++ earlier)) : Orderly R earlier := by
  induction newer with
  | nil => exact h
  | cons e newer ih =>
    cases h with
    | cons _ h => exact ih h

theorem Orderly.proper (h : Orderly R (newer ++ e :: earlier)) : Proper R earlier e := by
  cases h.of_append with
  | cons hp _ => exact hp

theorem Orderly.upTo (h : Orderly R (newer ++ e :: earlier)) : Orderly R earlier := by
  cases h.of_append with
  | cons _ h => exact h

omit [Host S Q A C E] in
theorem Granted.first (h : Granted log home k) :
    ∃ newer c past a earlier, log = newer ++ .ended c past (some k, a) :: earlier ∧
      c.home = home ∧ (c.errand.token ≠ some k ∨ a = .acquire (.ok .granted)) ∧
      ¬ Granted earlier home k := by
  induction log with
  | nil =>
    obtain ⟨c, past, a, hc, -⟩ := h
    cases hc
  | cons e log ih =>
    by_cases hg : Granted log home k
    · obtain ⟨newer, c, past, a, earlier, rfl, hc⟩ := ih hg
      exact ⟨e :: newer, c, past, a, earlier, rfl, hc⟩
    · obtain ⟨c, past, a, hc, hhome, hnew⟩ := h
      rcases List.mem_cons.1 hc with rfl | hc
      · exact ⟨[], c, past, a, log, rfl, hhome, hnew, hg⟩
      · exact absurd ⟨c, past, a, hc, hhome, hnew⟩ hg

/-- **Where a token comes from**: a client begins with one that it was granted before. -/
theorem Orderly.granted (h : Orderly R log) (hb : .began c ∈ log) (hk : c.errand.token = some k) :
    Granted log c.home k := by
  obtain ⟨newer, earlier, rfl⟩ := List.append_of_mem hb
  cases h.proper with
  | began hg _ => exact (hg k hk).mono (by simp)

theorem Orderly.handled (h : Orderly R log) (hx : .handled x ∈ log) :
    Recalls log x.commission x.past ∧ R.may x.commission x.past x.question := by
  obtain ⟨newer, earlier, rfl⟩ := List.append_of_mem hx
  cases h.proper with
  | handled hr hm => exact ⟨hr.mono (by simp), hm⟩

theorem Orderly.ended {r : Option τ × Answer} (h : Orderly R log) (he : .ended c past r ∈ log) :
    Recalls log c past ∧ R.ends c past r := by
  obtain ⟨newer, earlier, rfl⟩ := List.append_of_mem he
  cases h.proper with
  | ended hr hm => exact ⟨hr.mono (by simp), hm⟩

theorem Orderly.eq_of_attempts (h : Orderly R log) (hc : .began c ∈ log) (hc' : .began c' ∈ log)
    (ho : c.op = .acquire) (ho' : c'.op = .acquire)
    (hn : c.errand.attempts = c'.errand.attempts) : c = c' := by
  induction h with
  | nil => cases hc
  | cons hp _ ih =>
    rcases List.mem_cons.1 hc with heq | hm <;> rcases List.mem_cons.1 hc' with heq' | hm'
    · cases heq.trans heq'.symm
      rfl
    · cases heq
      cases hp with
      | began _ hlt =>
        have := (hlt _ hm').2 ho'
        omega
    · cases heq'
      cases hp with
      | began _ hlt =>
        have := (hlt _ hm).2 ho
        omega
    · exact ih hm hm'

/-! ## What every run keeps -/

structure Dialogue.Sound (R : Rule Q A τ) (log : List (Entry S Q A τ)) (d : Dialogue Q A τ) :
    Prop where
  keeps : d.talk.Keeps (R.may d.commission) (R.ends d.commission) d.past
  recalls : Recalls log d.commission d.past
  reply : ∀ q owed next a, d.talk = .ask q owed next → d.reply = some a →
    Replied log d.commission q a

structure Stray.Sound (R : Rule Q A τ) (log : List (Entry S Q A τ)) (z : Stray Q A τ) : Prop where
  may : R.may z.commission z.past z.question
  recalls : Recalls log z.commission z.past

theorem Dialogue.Sound.mono {d : Dialogue Q A τ} (h : d.Sound R log) (hl : log ⊆ log') :
    d.Sound R log' where
  keeps := h.keeps
  recalls := h.recalls.mono hl
  reply q owed next a ht ha := (h.reply q owed next a ht ha).mono hl

theorem Stray.Sound.mono {z : Stray Q A τ} (h : z.Sound R log) (hl : log ⊆ log') :
    z.Sound R log' where
  may := h.may
  recalls := h.recalls.mono hl

theorem Dialogue.Sound.leave {d : Dialogue Q A τ} (h : d.Sound R log) {qs : List Q}
    (hq : ∀ q ∈ qs, R.may d.commission d.past q) : ∀ z ∈ d.leave qs, z.Sound R log := by
  intro z hz
  obtain ⟨q, hm, rfl⟩ := List.mem_map.1 hz
  exact ⟨hq q hm, h.recalls⟩

omit [Host S Q A C E] in
theorem Dialogue.may_unhandled {d : Dialogue Q A τ} (hq : R.may d.commission d.past q) :
    ∀ q' ∈ d.unhandled q, R.may d.commission d.past q' := by
  unfold unhandled
  split
  · exact List.forall_mem_nil _
  · exact List.forall_mem_singleton.2 hq

/-- An answer to a question is heard. -/
theorem Dialogue.Sound.heard {d : Dialogue Q A τ} {owed : List Q}
    {next : A → Talk Q A (Option τ × Answer)} (h : d.Sound R log) (ht : d.talk = .ask q owed next)
    (ha : Host.isFault S a = true ∨ Replied log d.commission q a) :
    (d.heard q a (next a)).Sound R log where
  keeps := by
    have hk := h.keeps
    rw [ht] at hk
    exact hk.2.2 a
  recalls := h.recalls.cons ha
  reply := nofun

omit [Host S Q A C E] in
theorem Commission.settle_eq_some [DecidableEq τ] {r : Option τ × Answer} {kept : Option τ}
    (h : c.settle r kept = some k) :
    kept = some k ∨ r.1 = some k ∧ (c.errand.token ≠ some k ∨ r.2 = .acquire (.ok .granted)) := by
  unfold settle at h
  split at h
  next => exact .inr ⟨h, .inr rfl⟩
  next token answer _ =>
    split at h
    · exact .inl h
    next hne => exact .inr ⟨h, .inl fun hk => hne (h.trans hk.symm)⟩

namespace Traffic

variable {clients : Nat → Client Q A τ} {s : S} {t : Traffic S Q A τ}

/-- The rule is kept everywhere, and the log is in order. -/
structure Sound (R : Rule Q A τ) (t : Traffic S Q A τ) : Prop where
  dialogues : ∀ d ∈ t.dialogues, d.Sound R t.log
  strays : ∀ z ∈ t.strays, z.Sound R t.log
  log : Orderly R t.log
  tokens : ∀ i k, t.tokens i = some k → Granted t.log i k
  numbers : ∀ c, .began c ∈ t.log →
    c.errand.calls < t.calls ∧ (c.op = .acquire → c.errand.attempts < t.attempts)

/-- The client has the token, or had it when it began an operation. -/
def HasHeld (t : Traffic S Q A τ) (home : Nat) (k : τ) : Prop :=
  t.tokens home = some k ∨ ∃ c, .began c ∈ t.log ∧ c.home = home ∧ c.errand.token = some k

theorem Sound.begin (h : t.Sound R) (hb : R.Binds clients) (home : Nat) (o : Options) (op : Op) :
    (t.begin (clients home) home o op).Sound R := by
  let c : Commission τ := ⟨home, ⟨(clients home).own, o, t.tokens home, t.calls, t.attempts⟩, op⟩
  have hl : t.log ⊆ .began c :: t.log := List.subset_cons_self _ _
  refine ⟨fun d hm => ?_, fun z hm => (h.strays z hm).mono hl,
    .cons (.began (h.tokens home) h.numbers) h.log, fun i k hk => (h.tokens i k hk).mono hl, ?_⟩
  · rcases List.mem_append.1 hm with hm | hm
    · exact (h.dialogues d hm).mono hl
    · rw [List.mem_singleton.1 hm]
      exact ⟨hb c, ⟨List.mem_cons_self, fun _ _ => nofun⟩, nofun⟩
  · intro c' hc'
    have hle : t.attempts ≤ (t.begin (clients home) home o op).attempts := by
      unfold Traffic.begin
      dsimp only
      split <;> omega
    rcases List.mem_cons.1 hc' with heq | hc'
    · cases heq
      refine ⟨Nat.lt_succ_self _, fun ho => ?_⟩
      have ho : op = .acquire := ho
      simp [Traffic.begin, ho]
    · obtain ⟨hlt, hat⟩ := h.numbers c' hc'
      exact ⟨Nat.lt_succ_of_lt hlt, fun ho => Nat.lt_of_lt_of_le (hat ho) hle⟩

/-- A request of an operation or a stray is handled. -/
theorem Sound.handle (h : t.Sound R) {x : Exchange S Q A τ} {server : S}
    {dialogues : List (Dialogue Q A τ)} {strays : List (Stray Q A τ)}
    (hr : Recalls t.log x.commission x.past) (hm : R.may x.commission x.past x.question)
    (hd : ∀ d ∈ dialogues, d.Sound R (.handled x :: t.log)) (hz : ∀ z ∈ strays, z ∈ t.strays) :
    Sound R { t with server, dialogues, strays, log := .handled x :: t.log } := by
  have hl : t.log ⊆ .handled x :: t.log := List.subset_cons_self _ _
  refine ⟨hd, fun z hm => (h.strays z (hz z hm)).mono hl, .cons (.handled hr hm) h.log,
    fun i k hk => (h.tokens i k hk).mono hl, fun c hc => ?_⟩
  rcases List.mem_cons.1 hc with heq | hc
  · cases heq
  · exact h.numbers c hc

theorem Sound.set (h : t.Sound R) {j : Nat} {d : Dialogue Q A τ} (hd : d.Sound R t.log)
    (strays : List (Stray Q A τ)) (hz : ∀ z ∈ strays, z.Sound R t.log) :
    Sound R { t with dialogues := t.dialogues.set j d, strays := strays ++ t.strays } := by
  refine ⟨fun d' hm => ?_, fun z hm => ?_, h.log, h.tokens, h.numbers⟩
  · rcases List.mem_or_eq_of_mem_set hm with hm | rfl
    · exact h.dialogues d' hm
    · exact hd
  · rcases List.mem_append.1 hm with hm | hm
    · exact hz z hm
    · exact h.strays z hm

variable [DecidableEq τ]

theorem Sound.finish (h : t.Sound R) {j : Nat} {d : Dialogue Q A τ} {r : Option τ × Answer}
    (hd : d.Sound R t.log) (ht : d.talk = .done r) :
    Sound R { t with
      tokens := Function.update t.tokens d.commission.home
        (d.commission.settle r (t.tokens d.commission.home))
      dialogues := t.dialogues.eraseIdx j
      log := .ended d.commission d.past r :: t.log } := by
  have hk := hd.keeps
  rw [ht] at hk
  have hl : t.log ⊆ .ended d.commission d.past r :: t.log := List.subset_cons_self _ _
  constructor
  case dialogues => exact fun d' hm => (h.dialogues d' (List.mem_of_mem_eraseIdx hm)).mono hl
  case strays => exact fun z hm => (h.strays z hm).mono hl
  case log => exact .cons (.ended hd.recalls hk) h.log
  case tokens =>
    intro i k hi
    dsimp only at hi ⊢
    by_cases hne : i = d.commission.home
    · subst hne
      rw [Function.update_self] at hi
      rcases Commission.settle_eq_some hi with hi | ⟨hr, hnew⟩
      · exact (h.tokens _ k hi).mono hl
      · obtain ⟨token, answer⟩ := r
        cases hr
        exact ⟨_, _, _, List.mem_cons_self, rfl, hnew⟩
    · rw [Function.update_of_ne hne] at hi
      exact (h.tokens i k hi).mono hl
  case numbers =>
    intro c hc
    rcases List.mem_cons.1 hc with heq | hc
    · cases heq
    · exact h.numbers c hc

/-- **The rule is kept** by all that is asked and all that is come to, whatever the moves. -/
theorem Run.sound (hb : R.Binds clients) (run : Run clients s t) : t.Sound R := by
  induction run with
  | start =>
    exact ⟨List.forall_mem_nil _, List.forall_mem_nil _, .nil, fun _ _ h => absurd h (by simp),
      fun _ h => absurd h List.not_mem_nil⟩
  | @step t _ _ _ hs ih =>
    cases shift_of_step hs with
    | begun home o op => exact ih.begin hb home o op
    | @reached j d q owed next choice s a hj ht _ _ =>
      have hd := ih.dialogues d (List.mem_of_getElem? hj)
      have hk := hd.keeps
      rw [ht] at hk
      refine ih.handle hd.recalls hk.1 (fun d' hm => ?_) fun _ => id
      have hl : t.log ⊆ .handled ⟨d.commission, d.past, q, t.server, s, a⟩ :: t.log :=
        List.subset_cons_self _ _
      rcases List.mem_or_eq_of_mem_set hm with hm | rfl
      · exact (ih.dialogues d' hm).mono hl
      · refine ⟨hd.keeps, hd.recalls.mono hl, fun q' owed' next' a' ht' ha' => ?_⟩
        cases ht.symm.trans ht'
        cases ha'
        exact ⟨_, List.mem_cons_self, rfl, rfl, rfl⟩
    | heard hj ht hr =>
      have hd := ih.dialogues _ (List.mem_of_getElem? hj)
      exact ih.set (hd.heard ht (.inr (hd.reply _ _ _ _ ht hr))) [] nofun
    | failed hj ht hf =>
      have hd := ih.dialogues _ (List.mem_of_getElem? hj)
      have hk := hd.keeps
      rw [ht] at hk
      exact ih.set (hd.heard ht (.inl hf)) _ (hd.leave (Dialogue.may_unhandled hk.1))
    | told hj ht =>
      have hd := ih.dialogues _ (List.mem_of_getElem? hj)
      have hk := hd.keeps
      rw [ht] at hk
      exact ih.set (d := ⟨_, _, _, none⟩) ⟨hk.2, hd.recalls, nofun⟩ _
        (hd.leave (List.forall_mem_singleton.2 hk.1))
    | finished hj ht => exact ih.finish (ih.dialogues _ (List.mem_of_getElem? hj)) ht
    | gaveUp hj ht =>
      have hd := ih.dialogues _ (List.mem_of_getElem? hj)
      have hk := hd.keeps
      rw [ht] at hk
      have hz := hd.leave fun q hm => (List.mem_append.1 hm).elim
        (Dialogue.may_unhandled hk.1 q) (hk.2.1 q)
      exact ⟨fun d' hm => ih.dialogues d' (List.mem_of_mem_eraseIdx hm),
        fun z hm => (List.mem_append.1 hm).elim (hz z) (ih.strays z), ih.log, ih.tokens, ih.numbers⟩
    | arrived hj _ =>
      have hz := ih.strays _ (List.mem_of_getElem? hj)
      exact ih.handle hz.recalls hz.may
        (fun d hm => (ih.dialogues d hm).mono (List.subset_cons_self _ _))
        fun z => List.mem_of_mem_eraseIdx
    | passed => exact ⟨ih.dialogues, ih.strays, ih.log, ih.tokens, ih.numbers⟩

theorem Run.own_of_began (run : Run clients s t) (hc : .began c ∈ t.log) :
    c.errand.own = (clients c.home).own := by
  induction run with
  | start => cases hc
  | step _ hs ih =>
    cases shift_of_step hs with
    | begun =>
      rcases List.mem_cons.1 hc with heq | hc
      · cases heq
        rfl
      · exact ih hc
    | reached | finished | arrived => exact ih (by simpa using hc)
    | heard | failed | told | gaveUp | passed => exact ih hc

theorem Run.tokens_of_granted (run : Run clients s t)
    (hlog : t.log = .ended c past (some k, .acquire (.ok .granted)) :: earlier) :
    t.tokens c.home = some k := by
  induction run with
  | start => cases hlog
  | step _ hs ih =>
    cases shift_of_step hs with
    | begun | reached | arrived => cases hlog
    | heard | failed | told | gaveUp | passed => exact ih hlog
    | finished =>
      cases hlog
      exact Function.update_self _ _ _

omit [DecidableEq τ] in
/-- Whoever has held a token was granted it. -/
theorem Sound.granted (h : t.Sound R) (hh : t.HasHeld home k) : Granted t.log home k := by
  rcases hh with hk | ⟨c, hc, rfl, hk⟩
  · exact h.tokens home k hk
  · exact h.log.granted hc hk

end Traffic

/-! ## What the server has handled -/

/-- The requests that were handled, the latest first. -/
def exchanges (log : List (Entry S Q A τ)) : List (Exchange S Q A τ) :=
  log.filterMap fun
    | .handled x => some x
    | .began _ | .ended .. => none

/-- The server has come from one state to another by handling these requests. -/
inductive Served (s₀ : S) : S → List (Exchange S Q A τ) → Prop
  | start : Served s₀ s₀ []
  | handled {xs : List (Exchange S Q A τ)} {x : Exchange S Q A τ} {choice : C} :
      Served s₀ x.before xs → Host.serve x.before x.question choice = some (x.after, x.reply) →
      Served s₀ x.after (x :: xs)
  | passed {s s' : S} {xs : List (Exchange S Q A τ)} {e : E} :
      Served s₀ s xs → Host.pass s e = some s' → Served s₀ s' xs

omit [Host S Q A C E] in
@[simp] theorem mem_exchanges : x ∈ exchanges log ↔ .handled x ∈ log := by
  unfold exchanges
  rw [List.mem_filterMap]
  constructor
  · rintro ⟨e, he, h⟩
    cases e with
    | handled y =>
      cases h
      exact he
    | began | ended => cases h
  · exact fun h => ⟨_, h, rfl⟩

omit [Host S Q A C E] in
theorem exchanges_append (newer earlier : List (Entry S Q A τ)) :
    exchanges (newer ++ .handled x :: earlier) = exchanges newer ++ x :: exchanges earlier := by
  simp [exchanges]

/-- What every request and every event keeps, the server keeps. -/
theorem Served.keeps {P : S → Prop} {s₀ s : S} {xs : List (Exchange S Q A τ)}
    (hs : Served s₀ s xs) (h : P s₀)
    (serve : ∀ {s s' : S} {q : Q} {a : A} {choice : C},
      P s → Host.serve s q choice = some (s', a) → P s')
    (pass : ∀ {s s' : S} {e : E}, P s → Host.pass s e = some s' → P s') : P s := by
  induction hs with
  | start => exact h
  | handled _ hx ih => exact serve ih hx
  | passed _ hp ih => exact pass ih hp

/-- A handled request parts what was handled before from what was handled since. -/
theorem Served.split {s₀ s : S} {xs ys : List (Exchange S Q A τ)}
    (h : Served s₀ s (xs ++ x :: ys)) :
    Served s₀ x.before ys ∧
      (∃ choice : C, Host.serve x.before x.question choice = some (x.after, x.reply)) ∧
      Served x.after s xs := by
  generalize hl : xs ++ x :: ys = zs at h
  induction h generalizing xs with
  | start => simp at hl
  | handled h hs ih =>
    cases xs with
    | nil =>
      cases hl
      exact ⟨h, ⟨_, hs⟩, .start⟩
    | cons y xs =>
      cases hl
      obtain ⟨hb, hx, ha⟩ := ih rfl
      exact ⟨hb, hx, .handled ha hs⟩
  | passed _ hp ih =>
    obtain ⟨hb, hx, ha⟩ := ih hl
    exact ⟨hb, hx, .passed ha hp⟩

/-- **The server's state** comes from the requests in the log. -/
theorem Traffic.Run.served [DecidableEq τ] {clients : Nat → Client Q A τ} {s : S}
    {t : Traffic S Q A τ} (run : Run clients s t) : Served s t.server (exchanges t.log) := by
  induction run with
  | start => exact .start
  | step _ hs ih =>
    cases shift_of_step hs with
    | begun | heard | failed | told | finished | gaveUp => exact ih
    | @reached _ d q _ _ _ s a _ _ _ hserve =>
      exact .handled (x := ⟨d.commission, d.past, q, _, s, a⟩) ih hserve
    | @arrived _ z _ s a _ hserve =>
      exact .handled (x := ⟨z.commission, z.past, z.question, _, s, a⟩) ih hserve
    | passed hp => exact .passed ih hp

theorem Traffic.Run.exists_served [DecidableEq τ] {clients : Nat → Client Q A τ} {s : S}
    {t : Traffic S Q A τ} (run : Run clients s t) (hx : .handled x ∈ t.log) :
    ∃ ys : List (Exchange S Q A τ), ys ⊆ exchanges t.log ∧ Served s x.before ys ∧
      ∃ choice : C, Host.serve x.before x.question choice = some (x.after, x.reply) := by
  obtain ⟨newer, earlier, hlog⟩ := List.append_of_mem hx
  have hs := run.served
  rw [hlog, exchanges_append] at hs ⊢
  obtain ⟨hb, hserve, -⟩ := hs.split
  exact ⟨_, by simp, hb, hserve⟩

theorem Traffic.Run.served_between [DecidableEq τ] {clients : Nat → Client Q A τ} {s : S}
    {t : Traffic S Q A τ} {y : Exchange S Q A τ} (run : Run clients s t)
    (hlog : t.log = newer ++ .handled y :: earlier) (hx : .handled x ∈ earlier) :
    ∃ zs : List (Exchange S Q A τ), zs ⊆ exchanges earlier ∧ Served x.after y.before zs := by
  have hs := run.served
  rw [hlog, exchanges_append] at hs
  obtain ⟨mid, first, rfl⟩ := List.append_of_mem hx
  have hy := hs.split.1
  rw [exchanges_append] at hy ⊢
  exact ⟨_, List.subset_append_left _ _, hy.split.2.2⟩

end LeaseLock.Network
