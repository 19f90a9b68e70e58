import LeaseLock.Proofs.Locker.Waiting

/-!
# The calls of a locker

**Calls** (`Call`). What a history tells of the calls to the service (`calls`): who made them, what
was asked, when they went out, and when and how they ended. A call that was cut off has ended
without an answer, whatever the service made of it.

**The order** (`InOrder`). Attempts that were not granted (`Seeking`), then the one that was, then
refreshes (`Holding`), then one release (`Over`), and nothing after it.

**The invariant** (`Fits`). The phase of the locker tells how far the calls have come, and of the
calls at most the last one is still out.

Main result: `Run.calls_inOrder`.
-/

namespace LeaseLock.Locker

/-- How a call to the service ended. -/
inductive Ending where
  | answered (a : Answer)
  /-- It was dropped before its answer. -/
  | cut

/-- A call of a locker to the service. -/
structure Call where
  party : Party
  op : Op
  began : Instant
  /-- When and how it ended, if it has. -/
  ended : Option (Instant × Ending) := none

variable {l l' : Locker} {h : History} {now t : Instant} {e : Event} {fx : List Effect} {p : Party}
  {op : Op} {c : Call} {cs past : List Call} {ending : Ending}

/-! ## The calls of a history -/

/-- The party's call, if it is out, has ended. -/
def conclude (cs : List Call) (p : Party) (t : Instant) (ending : Ending) : List Call :=
  cs.map fun c =>
    if c.party = p ∧ c.ended.isNone then { c with ended := some (t, ending) } else c

/-- What an effect adds to the calls. -/
def Effect.note (t : Instant) (cs : List Call) : Effect → List Call
  | .start p op => cs ++ [⟨p, op, t, none⟩]
  | .cut p => conclude cs p t .cut
  | .returned .. => cs

def Event.note (t : Instant) (cs : List Call) : Event → List Call
  | .answer p a _ => conclude cs p t (.answered a)
  | _ => cs

/-- The calls to the service, the first one first. -/
def calls : History → List Call
  | [] => []
  | x :: h => x.effects.foldl (Effect.note x.time) (x.event.note x.time (calls h))

/-- The call was answered, and the answer grants the lock. -/
def Call.Granted (c : Call) : Prop := ∃ t, c.ended = some (t, .answered (.acquire (.ok .granted)))

/-- The call has ended, not before it began and not after `t`. -/
def Call.EndedBy (c : Call) (t : Instant) : Prop :=
  ∃ t' ending, c.ended = some (t', ending) ∧ c.began ≤ t' ∧ t' ≤ t

/-- The call has ended before the other one began. -/
def Call.Precedes (c c' : Call) : Prop := c.EndedBy c'.began

/-- Attempts only, and none was granted. -/
def Seeking (cs : List Call) : Prop := ∀ c ∈ cs, c.op = .acquire ∧ ¬c.Granted

/-- An attempt was granted, and only refreshes have followed. -/
def Holding (cs : List Call) : Prop :=
  ∃ tries won kept, cs = tries ++ won :: kept ∧ Seeking tries ∧ won.op = .acquire ∧ won.Granted ∧
    ∀ c ∈ kept, c.op = .refresh

/-- The release has gone out, as the last call. -/
def Over (cs : List Call) : Prop :=
  ∃ held back, cs = held ++ [back] ∧ Holding held ∧ back.op = .release

/-- Attempts that were not granted, then at most one that was, then refreshes, then at most one
release. -/
def InOrder (cs : List Call) : Prop := Seeking cs ∨ Holding cs ∨ Over cs

theorem Call.EndedBy.mono (hc : c.EndedBy t) (ht : t ≤ now) : c.EndedBy now := by
  obtain ⟨t', ending, he, hb, ht'⟩ := hc
  exact ⟨t', ending, he, hb, Nat.le_trans ht' ht⟩

theorem Seeking.concat (hs : Seeking cs) (ho : c.op = .acquire) (hg : ¬c.Granted) :
    Seeking (cs ++ [c]) := by
  intro c' hc'
  rcases List.mem_append.1 hc' with hc' | hc'
  · exact hs c' hc'
  · obtain rfl := List.mem_singleton.1 hc'
    exact ⟨ho, hg⟩

theorem Holding.concat (hh : Holding cs) (ho : c.op = .refresh) : Holding (cs ++ [c]) := by
  obtain ⟨tries, won, kept, rfl, hs, hw, hg, hk⟩ := hh
  refine ⟨tries, won, kept ++ [c], by simp, hs, hw, hg, ?_⟩
  intro c' hc'
  rcases List.mem_append.1 hc' with hc' | hc'
  · exact hk c' hc'
  · obtain rfl := List.mem_singleton.1 hc'
    exact ho

theorem Seeking.granted (hs : Seeking cs) (ho : c.op = .acquire) (hg : c.Granted) :
    Holding (cs ++ [c]) :=
  ⟨cs, c, [], rfl, hs, ho, hg, by simp⟩

theorem foldl_note_of_returns (hr : Returns fx) : fx.foldl (Effect.note now) cs = cs := by
  induction fx with
  | nil => rfl
  | cons x fx ih =>
    obtain ⟨n, r, rfl⟩ := hr x List.mem_cons_self
    exact ih fun y hy => hr y (List.mem_cons_of_mem _ hy)

theorem note_of_not_isAnswer (he : e.isAnswer = false) : e.note now cs = cs := by
  cases e <;> first | rfl | cases he

/-- Of calls of which only the last one is out, that one ends. -/
theorem conclude_concat (hp : ∀ c ∈ past, c.EndedBy t) :
    conclude (past ++ [⟨p, op, t, none⟩]) p now ending =
      past ++ [⟨p, op, t, some (now, ending)⟩] := by
  have hm : conclude past p now ending = past := by
    refine (List.map_congr_left fun c hc => ?_).trans (List.map_id past)
    obtain ⟨t', e, he, -, -⟩ := hp c hc
    rw [if_neg (by simp [he]), id]
  unfold conclude at *
  rw [List.map_append, hm]
  simp

/-! ## The invariant -/

/-- How far the calls have come when an operation goes out. -/
def Ready (op : Op) (cs : List Call) : Prop :=
  match op with
  | .acquire => Seeking cs
  | .refresh | .release => Holding cs

/-- How far the calls have come when nobody waits for the service. -/
def Settled (s : Phase) (cs : List Call) : Prop :=
  match s with
  | .idle => Seeking cs
  | .held => Holding cs
  | .released => InOrder cs

/-- The calls go with what the locker is at. -/
inductive Fits (now : Instant) (l : Locker) : List Call → Prop
  /-- No call is out. -/
  | rest {cs : List Call} : l.Still → Settled l.phase cs → (l.closer = some .armed → Holding cs) →
      cs.Pairwise Call.Precedes → (∀ c ∈ cs, c.EndedBy now) → Fits now l cs
  /-- The last call is out. -/
  | wait {past : List Call} {p : Party} {op : Op} {t : Instant} : l.Sole p op t → t ≤ now →
      Ready op past → past.Pairwise Call.Precedes → (∀ c ∈ past, c.EndedBy t) →
      Fits now l (past ++ [⟨p, op, t, none⟩])

theorem Settled.inOrder {s : Phase} (h : Settled s cs) : InOrder cs := by
  cases s with
  | idle => exact .inl h
  | held => exact .inr (.inl h)
  | released => exact h

theorem Ready.inOrder (h : Ready op cs) (ho : c.op = op) (hg : ¬c.Granted) :
    InOrder (cs ++ [c]) := by
  cases op with
  | acquire => exact .inl (h.concat ho hg)
  | refresh => exact .inr (.inl (h.concat ho))
  | release => exact .inr (.inr ⟨cs, c, rfl, h, ho⟩)

theorem Ready.settled (h : Ready op cs) (ho : c.op = op) (hg : ¬c.Granted) :
    Settled op.during (cs ++ [c]) := by
  cases op with
  | acquire => exact h.concat ho hg
  | refresh => exact h.concat ho
  | release => exact .inr (.inr ⟨cs, c, rfl, h, ho⟩)

/-- The phase that an answer leaves tells how far the calls have come. -/
theorem Ready.settled_leaves {a : Answer} (h : Ready a.op cs) (ho : c.op = a.op)
    (he : c.ended = some (t, .answered a)) : Settled (a.leaves a.op.during) (cs ++ [c]) := by
  by_cases ha : a = .acquire (.ok .granted)
  · subst ha
    exact h.granted ho ⟨t, he⟩
  · have hg : ¬c.Granted := by
      rintro ⟨t', ht'⟩
      rw [he] at ht'
      simp only [Option.some.injEq, Prod.mk.injEq, Ending.answered.injEq] at ht'
      exact ha ht'.2
    rw [Answer.leaves_of_ne ha]
    exact h.settled ho hg

theorem pairwise_concat (hp : past.Pairwise Call.Precedes) (he : ∀ c ∈ past, c.EndedBy t)
    (hc : c.began = t) : (past ++ [c]).Pairwise Call.Precedes := by
  rw [List.pairwise_append]
  refine ⟨hp, List.pairwise_singleton _ _, ?_⟩
  intro a ha b hb
  obtain rfl := List.mem_singleton.1 hb
  show a.EndedBy b.began
  rw [hc]
  exact he a ha

theorem fits_concluded (hst : l.Still) (ha : l.closer ≠ some .armed) (ht : t ≤ now)
    (hp : past.Pairwise Call.Precedes) (hpe : ∀ c ∈ past, c.EndedBy t)
    (hs : Settled l.phase (past ++ [⟨p, op, t, some (now, ending)⟩])) :
    Fits now l (past ++ [⟨p, op, t, some (now, ending)⟩]) := by
  refine .rest hst hs (absurd · ha) (pairwise_concat hp hpe rfl) ?_
  intro c hc
  rcases List.mem_append.1 hc with hc | hc
  · exact (hpe c hc).mono ht
  · obtain rfl := List.mem_singleton.1 hc
    exact ⟨now, ending, rfl, ht, Nat.le_refl now⟩

/-- A step that touches nobody's call leaves the calls as they are. -/
theorem Fits.quiet (hf : Fits t l cs) (ht : t ≤ now) (hq : Quiet l l') : Fits now l' cs := by
  cases hf with
  | rest hst hs ha hp he =>
    refine .rest (fun q => (hq.calling q).trans (hst q)) ?_ (fun harmed => ?_) hp
      fun c hc => (he c hc).mono ht
    · rcases hq.phase with h | h
      · rwa [h]
      · rw [h.1]
        exact hs.inOrder
    · rcases hq.armed harmed with h | h
      · exact ha h
      · rwa [h] at hs
  | @wait past p op since hso hle hr hp he =>
    obtain ⟨hc, hop, hn⟩ := hso
    have hout : l.callingSince p ≠ none := by simp [hc]
    refine .wait ⟨(hq.calling p).trans hc, (hq.op p hout).trans hop, fun q hqp => ?_⟩
      (Nat.le_trans hle ht) hr hp he
    exact (hq.calling q).trans (hn q hqp)

/-- **A step keeps the calls in order.** -/
theorem Fits.step (hl : Sound l) (hf : Fits t l cs) (ht : t ≤ now) (hc : Change l l' now e fx) :
    Fits now l' (fx.foldl (Effect.note now) (e.note now cs)) := by
  cases hc with
  | @asks e p op hne hst hso hb =>
    rw [note_of_not_isAnswer hne]
    cases hf with
    | rest _ hs ha hp he =>
      have hr : Ready op cs := by
        rcases hb with hb | ⟨harmed, rfl⟩
        · rw [hb] at hs
          cases op <;> exact hs
        · exact ha harmed
      exact .wait hso (Nat.le_refl now) hr hp fun c hc => (he c hc).mono ht
    | @wait past p' op' since hso' =>
      have hout := hst p'
      rw [hso'.1] at hout
      cases hout
  | @hears p a draw fx hout hop hst hu hph hr =>
    rw [foldl_note_of_returns hr]
    cases hf with
    | rest hst' => exact absurd (hst' p) hout
    | @wait past p' op since hso hle hr hp he =>
      -- the party that hears is the one whose call is out
      obtain rfl := hso.eq hout
      obtain rfl : a.op = op := Option.some.inj (hop.symm.trans hso.2.1)
      show Fits now l' (conclude _ p now (.answered a))
      rw [conclude_concat he]
      refine fits_concluded hst hu (Nat.le_trans hle ht) hp he ?_
      rw [hph, hl.phase p a.op hout hop]
      exact hr.settled_leaves rfl rfl
  | @drops e p fx hne hout hst hu hph hr =>
    rw [note_of_not_isAnswer hne, List.foldl_cons, foldl_note_of_returns hr]
    cases hf with
    | rest hst' => exact absurd (hst' p) hout
    | @wait past p' op since hso hle hr hp he =>
      obtain rfl := hso.eq hout
      show Fits now l' (conclude _ p now .cut)
      rw [conclude_concat he]
      refine fits_concluded hst hu (Nat.le_trans hle ht) hp he ?_
      rw [hph, hl.phase p op hout hso.2.1]
      exact hr.settled rfl (by rintro ⟨t', ht'⟩; simp at ht')
  | rests hne hq hr =>
    rw [note_of_not_isAnswer hne, foldl_note_of_returns hr]
    exact hf.quiet ht hq

theorem Run.fits (run : Run l h) : Fits (latest h) l (calls h) := by
  induction run with
  | made hm =>
    obtain ⟨-, hst⟩ := sound_make hm
    obtain ⟨-, rfl⟩ := make_eq_ok_iff.1 hm
    have hn : calls [] = [] := rfl
    rw [hn]
    exact .rest hst nofun nofun .nil nofun
  | step run ht hs ih => exact ih.step run.sound ht (run.sound.step (stepped_of_step hs)).2

/-- **The calls of a locker never overlap, and keep their order**: attempts that were not granted,
at most one that was, refreshes, at most one release. -/
theorem Run.calls_inOrder (run : Run l h) :
    InOrder (calls h) ∧ (calls h).Pairwise Call.Precedes ∧
      ∀ c ∈ calls h, c.ended = none ∨ c.EndedBy (latest h) := by
  have hf := run.fits
  generalize calls h = cs at hf ⊢
  cases hf with
  | rest hst hs ha hp he => exact ⟨hs.inOrder, hp, fun c hc => .inr (he c hc)⟩
  | @wait past p op t hso hle hr hp he =>
    have hg : ¬Call.Granted ⟨p, op, t, none⟩ := by
      rintro ⟨t', ht'⟩
      cases ht'
    refine ⟨hr.inOrder rfl hg, pairwise_concat hp he rfl, ?_⟩
    intro c hc
    rcases List.mem_append.1 hc with hc | hc
    · exact .inr ((he c hc).mono hle)
    · exact .inl (List.mem_singleton.1 hc ▸ rfl)

def ownedByA : Options := { owner := "a", callTimeout := some (.ofSecs 1) }

/-- A locker that meets another holder, runs into its bound, is cancelled, takes the lock, renews it
by a tick and by hand, and gives it back. -/
def fullLife : List (Instant × Event) :=
  [(0, .call 0 (.acquire none)),
    (1, .answer (.caller 0) (.acquire (.ok (.occupied (some "b")))) 0),
    (20000000, .wake 0),
    (2000000000, .expire (.caller 0)),
    (2000000000, .call 1 .lock),
    (2000000000, .cancel 1),
    (2000000000, .call 2 .lock),
    (3000000000, .answer (.caller 2) (.acquire (.ok .granted)) 0),
    (8000000000, .tick),
    (8000000000, .call 3 .refresh),
    (8000000001, .answer .ticker (.refresh (.ok ())) 0),
    (8000000001, .resume (.caller 3)),
    (8000000002, .answer (.caller 3) (.refresh (.ok ())) 0),
    (8000000002, .call 4 .unlock),
    (8000000003, .answer (.caller 4) (.release (.ok ())) 0),
    (8000000003, .drop true)]

theorem calls_inOrder_fullLife : ∃ l h, Run l h ∧
    (calls h).map (·.op) = [.acquire, .acquire, .acquire, .acquire, .refresh, .refresh, .release] ∧
    InOrder (calls h) ∧ (calls h).Pairwise Call.Precedes ∧
      ∀ c ∈ calls h, c.ended = none ∨ c.EndedBy (latest h) := by
  have made : Run { options := ownedByA } [] := .made (make_eq_ok_iff.2 ⟨rfl, rfl⟩)
  have run := made.replay
    (Option.some_get (x := replay ({ options := ownedByA }, []) fullLife) rfl).symm
  exact ⟨_, _, run, rfl, run.calls_inOrder⟩

end LeaseLock.Locker
