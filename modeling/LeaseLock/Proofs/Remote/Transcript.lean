import LeaseLock.Proofs.Remote.Journal

/-!
# Undisturbed operations

**The transcript** (`Transcript`). An operation that has been told of no failure has heard all that
the server replied to it, and none of its requests is a stray. So it stays when the operation is
over: no further request of it will ever be handled.

This is so if the clients owe nothing and tell nothing. Main result: `Run.said_of_ended`.
-/

namespace LeaseLock.Network

variable {S Q A C E τ : Type} {log : List (Entry S Q A τ)} {c : Commission τ}
  {past : List (Q × A)} {x : Exchange S Q A τ} {n : Nat}

/-- What was asked in the course of an operation, by its number, and replied, the latest first. -/
def said (n : Nat) (log : List (Entry S Q A τ)) : List (Q × A) :=
  (exchanges log).filterMap fun x =>
    if x.commission.errand.calls = n then some (x.question, x.reply) else none

theorem said_handled (n : Nat) (x : Exchange S Q A τ) (log : List (Entry S Q A τ)) :
    said n (.handled x :: log) =
      if x.commission.errand.calls = n then (x.question, x.reply) :: said n log
      else said n log := by
  simp only [said, exchanges, List.filterMap_cons]
  split <;> simp_all

theorem said_eq_nil (h : ∀ x, .handled x ∈ log → x.commission.errand.calls ≠ n) :
    said n log = [] := by
  refine List.filterMap_eq_nil_iff.2 fun x hx => if_neg (h x (mem_exchanges.1 hx))

/-- The reply that is on its way. -/
def Dialogue.onWay (d : Dialogue Q A τ) : List (Q × A) :=
  match d.talk, d.reply with
  | .ask q _ _, some a => [(q, a)]
  | _, _ => []

/-! ## Members of a list that are told apart -/

section Apart

variable {α β : Type} {f : α → β} {l : List α} {a b : α} {k : Nat}

theorem ne_of_getElem? (h : (l.map f).Nodup) {i : Nat} (hi : l[i]? = some b) (hk : l[k]? = some a)
    (hne : i ≠ k) : f b ≠ f a := by
  intro heq
  have hlt : i < (l.map f).length := by simpa using (List.getElem?_eq_some_iff.1 hi).1
  exact hne ((List.getElem?_inj hlt h).1 (by simp [hi, hk, heq]))

theorem mem_eraseIdx_apart (h : (l.map f).Nodup) (hk : l[k]? = some a) (hb : b ∈ l.eraseIdx k) :
    b ∈ l ∧ f b ≠ f a := by
  obtain ⟨i, hne, hi⟩ := List.mem_eraseIdx_iff_getElem?.1 hb
  exact ⟨List.mem_of_getElem? hi, ne_of_getElem? h hi hk hne⟩

theorem mem_set_apart {a' : α} (h : (l.map f).Nodup) (hk : l[k]? = some a)
    (hb : b ∈ l.set k a') : b = a' ∨ b ∈ l ∧ f b ≠ f a := by
  obtain ⟨i, hi⟩ := List.mem_iff_getElem?.1 hb
  rw [List.getElem?_set] at hi
  split at hi
  · split at hi
    · exact .inl (Option.some.inj hi).symm
    · cases hi
  next hne => exact .inr ⟨List.mem_of_getElem? hi, ne_of_getElem? h hi hk (Ne.symm hne)⟩

theorem map_set_self {a' : α} (hk : l[k]? = some a) (hf : f a' = f a) :
    (l.set k a').map f = l.map f := by
  obtain ⟨hlt, rfl⟩ := List.getElem?_eq_some_iff.1 hk
  have hlt : k < (l.map f).length := by simpa using hlt
  rw [List.map_set, hf, ← List.getElem_map f (h := hlt), List.set_getElem_self]

end Apart

variable [Host S Q A C E]

/-- No failure was heard. -/
def Undisturbed (S : Type) [Host S Q A C E] (past : List (Q × A)) : Prop :=
  ∀ q a, (q, a) ∈ past → Host.isFault S a = false

namespace Traffic

variable {t : Traffic S Q A τ} {clients : Nat → Client Q A τ} {s : S}

/-- All that was asked in the course of the operation was answered so, and no request of it is a
stray. -/
structure Transcript (t : Traffic S Q A τ) (n : Nat) (heard : List (Q × A)) : Prop where
  said : said n t.log = heard
  strays : ∀ z ∈ t.strays, z.commission.errand.calls ≠ n

/-- Operations are told apart, and the undisturbed ones have heard all that was replied. -/
structure Tidy (t : Traffic S Q A τ) : Prop where
  plain : ∀ d ∈ t.dialogues, d.talk.Plain
  nodup : (t.dialogues.map (·.commission.errand.calls)).Nodup
  apart : ∀ c past r, .ended c past r ∈ t.log →
    ∀ d ∈ t.dialogues, d.commission.errand.calls ≠ c.errand.calls
  going : ∀ d ∈ t.dialogues, Undisturbed S d.past →
    t.Transcript d.commission.errand.calls (d.onWay ++ d.past)
  ended : ∀ c past r, .ended c past r ∈ t.log → Undisturbed S past →
    t.Transcript c.errand.calls past

theorem Transcript.handled {heard : List (Q × A)} (h : t.Transcript n heard) {server : S}
    {dialogues : List (Dialogue Q A τ)} {strays : List (Stray Q A τ)}
    (hz : ∀ z ∈ strays, z ∈ t.strays) (hx : x.commission.errand.calls ≠ n) :
    Transcript { t with server, dialogues, strays, log := .handled x :: t.log } n heard where
  said := by rw [said_handled, if_neg hx, h.said]
  strays z hm := h.strays z (hz z hm)

theorem Transcript.leave {heard : List (Q × A)} (h : t.Transcript n heard) {d : Dialogue Q A τ}
    (hd : d.commission.errand.calls ≠ n) (qs : List Q) (dialogues : List (Dialogue Q A τ)) :
    Transcript { t with dialogues, strays := d.leave qs ++ t.strays } n heard where
  said := h.said
  strays z hm := by
    rcases List.mem_append.1 hm with hm | hm
    · obtain ⟨q, -, rfl⟩ := List.mem_map.1 hm
      exact hd
    · exact h.strays z hm

theorem Tidy.begin (h : t.Tidy) {R : Rule Q A τ} (hs : t.Sound R) {client : Client Q A τ}
    {home : Nat} {o : Options} {op : Op} (hp : ∀ e op, (client.adapter e op).Plain) :
    (t.begin client home o op).Tidy := by
  have lt_calls : ∀ {c : Commission τ} {past : List (Q × A)}, Recalls t.log c past →
      c.errand.calls < t.calls := fun hr => (hs.numbers _ hr.began).1
  constructor
  case plain =>
    intro d hm
    rcases List.mem_append.1 hm with hm | hm
    · exact h.plain d hm
    · rw [List.mem_singleton.1 hm]
      exact hp _ _
  case nodup =>
    simp only [Traffic.begin, List.map_append, List.map_cons, List.map_nil]
    refine List.Nodup.append h.nodup (List.nodup_singleton _) ?_
    rw [List.disjoint_singleton]
    intro hm
    obtain ⟨d, hd, heq⟩ := List.mem_map.1 hm
    have := lt_calls (hs.dialogues d hd).recalls
    omega
  case apart =>
    intro c past r hm d hd
    have hm : Entry.ended c past r ∈ t.log := by simpa [Traffic.begin] using hm
    rcases List.mem_append.1 hd with hd | hd
    · exact h.apart c past r hm d hd
    · rw [List.mem_singleton.1 hd]
      have := lt_calls (hs.log.ended hm).1
      exact Nat.ne_of_gt this
  case going =>
    intro d hm hu
    rcases List.mem_append.1 hm with hm | hm
    · exact ⟨(h.going d hm hu).said, (h.going d hm hu).strays⟩
    · rw [List.mem_singleton.1 hm]
      refine ⟨?_, fun z hz => ?_⟩
      · rw [show Dialogue.onWay _ = [] from ?_]
        · refine said_eq_nil fun x hx => ?_
          have hx : Entry.handled x ∈ t.log := by simpa [Traffic.begin] using hx
          exact Nat.ne_of_lt (lt_calls (hs.log.handled hx).1)
        · unfold Dialogue.onWay
          split
          next hr => cases hr
          · rfl
      · exact Nat.ne_of_lt (lt_calls (hs.strays z hz).recalls)
  case ended =>
    intro c past r hm hu
    have hm : Entry.ended c past r ∈ t.log := by simpa [Traffic.begin] using hm
    exact ⟨(h.ended c past r hm hu).said, (h.ended c past r hm hu).strays⟩

variable {t' : Traffic S Q A τ} {k : Nat} {d d' : Dialogue Q A τ}

/-- An operation goes on, and nothing becomes of the others. -/
theorem Tidy.set (h : t.Tidy) (hk : t.dialogues[k]? = some d)
    (ht' : t'.dialogues = t.dialogues.set k d') (hc : d'.commission = d.commission)
    (hp : d'.talk.Plain) (hlog : ∀ c past r, .ended c past r ∈ t'.log → .ended c past r ∈ t.log)
    (others : ∀ n heard, d.commission.errand.calls ≠ n → t.Transcript n heard →
      t'.Transcript n heard)
    (own : Undisturbed S d'.past →
      t'.Transcript d.commission.errand.calls (d'.onWay ++ d'.past)) : t'.Tidy := by
  have hd : d ∈ t.dialogues := List.mem_of_getElem? hk
  have mem_cases : ∀ b ∈ t'.dialogues, b = d' ∨
      b ∈ t.dialogues ∧ b.commission.errand.calls ≠ d.commission.errand.calls := by
    rw [ht']
    exact fun b => mem_set_apart h.nodup hk
  constructor
  case plain =>
    intro b hb
    rcases mem_cases b hb with rfl | ⟨hb, -⟩
    · exact hp
    · exact h.plain b hb
  case nodup =>
    rw [ht', map_set_self hk (by rw [hc])]
    exact h.nodup
  case apart =>
    intro c past r hm b hb
    rcases mem_cases b hb with rfl | ⟨hb, -⟩
    · rw [hc]
      exact h.apart c past r (hlog c past r hm) d hd
    · exact h.apart c past r (hlog c past r hm) b hb
  case going =>
    intro b hb hu
    rcases mem_cases b hb with rfl | ⟨hb, hne⟩
    · rw [hc]
      exact own hu
    · exact others _ _ (Ne.symm hne) (h.going b hb hu)
  case ended =>
    intro c past r hm hu
    have hm := hlog c past r hm
    exact others _ _ (h.apart c past r hm d hd) (h.ended c past r hm hu)

/-- An operation is over or given up, and nothing becomes of the others. -/
theorem Tidy.erase (h : t.Tidy) (hk : t.dialogues[k]? = some d)
    (ht' : t'.dialogues = t.dialogues.eraseIdx k)
    (others : ∀ n heard, d.commission.errand.calls ≠ n → t.Transcript n heard →
      t'.Transcript n heard)
    (hlog : ∀ c past r, .ended c past r ∈ t'.log → .ended c past r ∈ t.log ∨
      c = d.commission ∧ (Undisturbed S past → t'.Transcript c.errand.calls past)) : t'.Tidy := by
  have hd : d ∈ t.dialogues := List.mem_of_getElem? hk
  have mem_apart : ∀ b ∈ t'.dialogues,
      b ∈ t.dialogues ∧ b.commission.errand.calls ≠ d.commission.errand.calls := by
    rw [ht']
    exact fun b => mem_eraseIdx_apart h.nodup hk
  constructor
  case plain => exact fun b hb => h.plain b (mem_apart b hb).1
  case nodup =>
    rw [ht']
    exact h.nodup.sublist ((List.eraseIdx_sublist _ _).map _)
  case apart =>
    intro c past r hm b hb
    obtain ⟨hb, hne⟩ := mem_apart b hb
    rcases hlog c past r hm with hm | ⟨rfl, -⟩
    · exact h.apart c past r hm b hb
    · exact hne
  case going =>
    intro b hb hu
    obtain ⟨hb, hne⟩ := mem_apart b hb
    exact others _ _ (Ne.symm hne) (h.going b hb hu)
  case ended =>
    intro c past r hm hu
    rcases hlog c past r hm with hm | ⟨-, own⟩
    · exact others _ _ (h.apart c past r hm d hd) (h.ended c past r hm hu)
    · exact own hu

theorem Tidy.arrive (h : t.Tidy) {j : Nat} {z : Stray Q A τ} (hz : t.strays[j]? = some z)
    (hx : x.commission = z.commission) {server : S} :
    Tidy { t with server, strays := t.strays.eraseIdx j, log := .handled x :: t.log } := by
  have hz : z ∈ t.strays := List.mem_of_getElem? hz
  have others : ∀ n heard, t.Transcript n heard → Traffic.Transcript
      { t with server, strays := t.strays.eraseIdx j, log := .handled x :: t.log } n heard :=
    fun n heard hn => hn.handled (fun z => List.mem_of_mem_eraseIdx) (hx ▸ hn.strays z hz)
  have hlog : ∀ c past r, .ended c past r ∈ Entry.handled x :: t.log → .ended c past r ∈ t.log :=
    fun c past r hm => by simpa using hm
  exact ⟨h.plain, h.nodup, fun c past r hm => h.apart c past r (hlog c past r hm),
    fun d hd hu => others _ _ (h.going d hd hu),
    fun c past r hm hu => others _ _ (h.ended c past r (hlog c past r hm) hu)⟩

theorem Undisturbed.of_cons {q : Q} {a : A} (h : Undisturbed S ((q, a) :: past)) :
    Host.isFault S a = false ∧ Undisturbed S past :=
  ⟨h q a List.mem_cons_self, fun q' a' hm => h q' a' (List.mem_cons_of_mem _ hm)⟩

variable [DecidableEq τ]

theorem Run.tidy {R : Rule Q A τ} (hb : R.Binds clients)
    (hp : ∀ i e op, ((clients i).adapter e op).Plain) (run : Run clients s t) : t.Tidy := by
  induction run with
  | start =>
    exact ⟨List.forall_mem_nil _, List.nodup_nil, fun _ _ _ h => absurd h List.not_mem_nil,
      fun _ h => absurd h List.not_mem_nil, fun _ _ _ h => absurd h List.not_mem_nil⟩
  | @step t _ _ run hs ih =>
    have sound := run.sound hb
    cases shift_of_step hs with
    | begun home o op => exact ih.begin sound (hp home)
    | @reached k d q owed next choice s a hk ht hr _ =>
      have hd := List.mem_of_getElem? hk
      refine ih.set hk rfl rfl (ih.plain d hd) (fun c past r hm => by simpa using hm)
        (fun n heard hne hn => hn.handled (fun _ => id) hne) fun hu => ?_
      have hgo := ih.going d hd hu
      refine ⟨?_, hgo.strays⟩
      rw [said_handled, if_pos rfl, hgo.said]
      simp [Dialogue.onWay, ht, hr]
    | @heard k d q owed next a hk ht hr =>
      have hd := List.mem_of_getElem? hk
      have hplain := ih.plain d hd
      rw [ht] at hplain
      refine ih.set hk rfl rfl (hplain.2 a) (fun _ _ _ => id)
        (fun n heard _ hn => ⟨hn.said, hn.strays⟩) fun hu => ?_
      have hgo := ih.going d hd (Undisturbed.of_cons hu).2
      refine ⟨?_, hgo.strays⟩
      rw [hgo.said]
      simp [Dialogue.onWay, Dialogue.heard, ht, hr]
    | @failed k d q owed next a hk ht hf =>
      have hplain := ih.plain d (List.mem_of_getElem? hk)
      rw [ht] at hplain
      refine ih.set hk rfl rfl (hplain.2 a) (fun _ _ _ => id)
        (fun n heard hne hn => hn.leave hne _ _) fun hu => ?_
      exact absurd hf (by simp [(Undisturbed.of_cons hu).1])
    | @told k d q next hk ht =>
      have hplain := ih.plain d (List.mem_of_getElem? hk)
      rw [ht] at hplain
      exact hplain.elim
    | @finished k d r hk ht =>
      have hd := List.mem_of_getElem? hk
      refine ih.erase hk rfl (fun n heard _ hn => ⟨hn.said, hn.strays⟩) fun c past r hm => ?_
      rcases List.mem_cons.1 hm with heq | hm
      · cases heq
        refine .inr ⟨rfl, fun hu => ?_⟩
        have hgo := ih.going d hd hu
        have hway : d.onWay = [] := by simp [Dialogue.onWay, ht]
        rw [hway] at hgo
        exact ⟨hgo.said, hgo.strays⟩
      · exact .inl hm
    | gaveUp hk _ =>
      exact ih.erase hk rfl (fun n heard hne hn => hn.leave hne _ _) fun _ _ _ => .inl
    | arrived hz _ => exact ih.arrive hz rfl
    | passed =>
      exact ⟨ih.plain, ih.nodup, ih.apart,
        fun d hd hu => ⟨(ih.going d hd hu).said, (ih.going d hd hu).strays⟩,
        fun c past r hm hu => ⟨(ih.ended c past r hm hu).said, (ih.ended c past r hm hu).strays⟩⟩

/-- **An undisturbed operation that is over** has heard all that was ever replied to it. -/
theorem Run.said_of_ended {R : Rule Q A τ} (hb : R.Binds clients)
    (hp : ∀ i e op, ((clients i).adapter e op).Plain) (run : Run clients s t)
    {r : Option τ × Answer} (he : .ended c past r ∈ t.log) (hu : Undisturbed S past) :
    said c.errand.calls t.log = past := ((run.tidy hb hp).ended c past r he hu).said

end Traffic

end LeaseLock.Network
