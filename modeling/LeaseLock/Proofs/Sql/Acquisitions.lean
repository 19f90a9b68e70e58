import LeaseLock.Proofs.Sql.Traffic

/-!
# Whose row it is after the row was taken over

A row says who has the lock, and not by which acquisition. A refresh and a release look for a row
of their own owner id, so whether an earlier holder still finds one depends on the owner id of
the one that took the row over.

**One transaction** says whose row it is afterwards: a taking makes it its owner's
(`Done.Lawful.holder_after_taking`), a release of its owner removes it
(`Done.Lawful.holder_after_release`), and everything else leaves the owner as it was
(`Done.Lawful.holder_kept`).

**A run.** The latest taking decides whose row it is, until that owner id releases it
(`Run.holder_of_latest`), by induction over the moves.

Main result: `Run.lost_iff_other_owner`. An earlier holder is told of its loss, and cannot remove
the row, exactly if the latest taking has another owner id or its row was released since.
-/

namespace LeaseLock.Sql

/-- Whose the record of a lock is, live or not. -/
def holder (rows : List Row) (name : String) : Option String :=
  (Database.row? rows name).map Row.owner

variable {rows : List Row} {name owner : String}

theorem holder_eq_some_iff :
    holder rows name = some owner ↔
      ∃ r, Database.row? rows name = some r ∧ r.owner = owner :=
  Option.map_eq_some_iff

theorem holder_ne_some_iff :
    holder rows name ≠ some owner ↔
      ∀ r, Database.row? rows name = some r → r.owner ≠ owner := by
  rw [ne_eq, holder_eq_some_iff]
  simp only [not_exists, not_and]

namespace Done

/-- The call has got the lock: its row is new, or was taken over. -/
def Takes (x : Done) : Prop := x.op = .acquire ∧ x.renews = true

/-- The record was released by its own owner id among these. -/
def Vacated (x : Done) (later : List Done) : Prop :=
  ∃ w ∈ later, w.name = x.name ∧ w.op = .release ∧ w.owner = x.owner

theorem not_vacated_nil (x : Done) : ¬x.Vacated [] := by
  rintro ⟨w, hw, -⟩
  cases hw

theorem vacated_cons {x w : Done} {later : List Done} :
    x.Vacated (w :: later) ↔
      (w.name = x.name ∧ w.op = .release ∧ w.owner = x.owner) ∨ x.Vacated later := by
  simp [Vacated]

instance (x : Done) (later : List Done) : Decidable (x.Vacated later) :=
  inferInstanceAs (Decidable (∃ w ∈ later, w.name = x.name ∧ w.op = .release ∧ w.owner = x.owner))

/-- Whose the record is after a taking, if no other taking is among what came later. -/
def leaves (x : Done) (later : List Done) : Option String :=
  if x.Vacated later then none else some x.owner

theorem leaves_nil (x : Done) : x.leaves [] = some x.owner := if_neg x.not_vacated_nil

theorem leaves_cons {x w : Done} {later : List Done}
    (h : ¬(w.name = x.name ∧ w.op = .release ∧ w.owner = x.owner)) :
    x.leaves (w :: later) = x.leaves later := by
  simp only [leaves, vacated_cons, h, false_or]

theorem leaves_eq_none_iff {x : Done} {later : List Done} :
    x.leaves later = none ↔ x.Vacated later := by
  unfold leaves
  split <;> simp_all

theorem leaves_eq_some_iff {x : Done} {later : List Done} {owner : String} :
    x.leaves later = some owner ↔ owner = x.owner ∧ ¬x.Vacated later := by
  unfold leaves
  split <;> simp_all [eq_comm]

namespace Lawful

variable {x : Done}

theorem holder_after_taking (h : x.Lawful) (ht : x.Takes) :
    holder x.after x.name = some x.owner := by
  obtain ⟨r, hr, hown, -⟩ := h.record ht.2
  exact holder_eq_some_iff.2 ⟨r, hr, hown⟩

/-- A refresh finds its owner's row, or is told of the loss. -/
theorem refresh_outcome (h : x.Lawful) (hop : x.op = .refresh) :
    (holder x.before x.name = some x.owner ∧ x.answer = .refresh (.ok ()) ∧
      holder x.after x.name = some x.owner) ∨
    (holder x.before x.name ≠ some x.owner ∧
      x.answer = .refresh (.error (.lost (.row x.name x.owner))) ∧ x.after = x.before) := by
  have hafter := h.after_eq
  have hanswer := h.answer_eq
  rw [hop] at hafter hanswer
  rcases refresh_cases h.unique x.reading x.errand.options with
    ⟨r, hr, ho, hok, hrow⟩ | ⟨hne, heq⟩
  · refine .inl ⟨holder_eq_some_iff.2 ⟨r, hr, ho⟩, hanswer.trans hok, ?_⟩
    rw [hafter]
    exact holder_eq_some_iff.2 ⟨_, hrow, ho⟩
  · rw [heq] at hafter hanswer
    exact .inr ⟨holder_ne_some_iff.2 hne, hanswer, hafter⟩

/-- A release removes its owner's row, or changes nothing. It always succeeds. -/
theorem release_outcome (h : x.Lawful) (hop : x.op = .release) :
    x.answer = .release (.ok ()) ∧
    ((holder x.before x.name = some x.owner ∧ holder x.after x.name = none) ∨
      (holder x.before x.name ≠ some x.owner ∧ x.after = x.before)) := by
  have hafter := h.after_eq
  have hanswer := h.answer_eq
  rw [hop] at hafter hanswer
  refine ⟨hanswer, ?_⟩
  rcases release_cases h.unique x.reading x.errand.options with ⟨r, hr, ho, hnone⟩ | ⟨hne, heq⟩
  · refine .inl ⟨holder_eq_some_iff.2 ⟨r, hr, ho⟩, ?_⟩
    rw [hafter]
    exact Option.map_eq_none_iff.2 hnone
  · exact .inr ⟨holder_ne_some_iff.2 hne, hafter.trans heq⟩

theorem lost_iff (h : x.Lawful) (hop : x.op = .refresh) :
    x.answer = .refresh (.error (.lost (.row x.name x.owner))) ↔
      holder x.before x.name ≠ some x.owner := by
  rcases h.refresh_outcome hop with ⟨hb, hans, -⟩ | ⟨hb, hans, -⟩ <;> simp [hb, hans]

theorem refreshed_iff (h : x.Lawful) (hop : x.op = .refresh) :
    x.answer = .refresh (.ok ()) ↔ holder x.before x.name = some x.owner := by
  rcases h.refresh_outcome hop with ⟨hb, hans, -⟩ | ⟨hb, hans, -⟩ <;> simp [hb, hans]

theorem release_unchanged_iff (h : x.Lawful) (hop : x.op = .release) :
    x.after = x.before ↔ holder x.before x.name ≠ some x.owner := by
  rcases (h.release_outcome hop).2 with ⟨hb, hnone⟩ | ⟨hb, heq⟩
  · refine iff_of_false (fun heq => ?_) (not_not_intro hb)
    rw [heq, hb] at hnone
    cases hnone
  · exact iff_of_true heq hb

theorem holder_after_release_eq_none_iff (h : x.Lawful) (hop : x.op = .release) :
    holder x.after x.name = none ↔
      holder x.before x.name = some x.owner ∨ holder x.before x.name = none := by
  rcases (h.release_outcome hop).2 with ⟨hb, hnone⟩ | ⟨hb, heq⟩
  · exact iff_of_true hnone (.inl hb)
  · rw [heq, or_iff_right hb]

theorem after_of_refused (h : x.Lawful) (hop : x.op = .acquire) (hr : x.renews = false) :
    x.after = x.before := by
  have hafter := h.after_eq
  have hanswer := h.answer_eq
  unfold renews at hr
  rw [hop] at hafter hanswer
  rw [hanswer] at hr
  simp only [transact, Prod.map_fst, Prod.map_snd, id_eq] at hafter hr
  rcases acquireRows_cases x.reading x.errand.options x.before with
    ⟨-, hg, -⟩ | ⟨r, -, -, heq⟩ | ⟨r, -, -, hg, -⟩
  · rw [hg] at hr
    cases hr
  · rw [heq] at hafter
    exact hafter
  · rw [hg] at hr
    cases hr

/-- **One transaction leaves the owner of a row as it is**, unless it takes the lock or releases
the row of its own owner id. -/
theorem holder_kept (h : x.Lawful) (ht : x.name = name → ¬x.Takes)
    (hr : x.name = name → x.op = .release → holder x.before name ≠ some x.owner) :
    holder x.after name = holder x.before name := by
  by_cases hn : x.name = name
  · subst hn
    cases hop : x.op with
    | acquire =>
      have hrefused : x.renews = false := Bool.eq_false_iff.2 fun hren => ht rfl ⟨hop, hren⟩
      rw [h.after_of_refused hop hrefused]
    | refresh =>
      rcases h.refresh_outcome hop with ⟨hb, -, ha⟩ | ⟨-, -, heq⟩
      · rw [ha, hb]
      · rw [heq]
    | release =>
      rcases (h.release_outcome hop).2 with ⟨hb, -⟩ | ⟨-, heq⟩
      · exact absurd hb (hr rfl hop)
      · rw [heq]
  · unfold holder
    rw [h.after_eq, row?_transact_of_ne (Ne.symm hn)]

/-- Whose the record is, told from a taking and what came after it, is told so after one more
transaction that takes nothing. -/
theorem holder_of_later {w y : Done} {later : List Done} (h : w.Lawful)
    (hnt : w.name = y.name → ¬w.Takes) (hb : holder w.before y.name = y.leaves later) :
    holder w.after y.name = y.leaves (w :: later) := by
  by_cases hrel : w.name = y.name ∧ w.op = .release ∧ w.owner = y.owner
  · rw [leaves, if_pos (vacated_cons.2 (.inl hrel))]
    obtain ⟨hn, hop, hown⟩ := hrel
    rcases (h.release_outcome hop).2 with ⟨-, hnone⟩ | ⟨hne, heq⟩
    · rw [← hn]
      exact hnone
    · rw [heq, hb, leaves, if_pos]
      by_contra hstill
      apply hne
      rw [hn, hb, leaves, if_neg hstill, hown]
  · rw [leaves_cons hrel, ← hb]
    apply h.holder_kept hnt
    intro hn hop hown
    rw [hb] at hown
    exact hrel ⟨hn, hop, (leaves_eq_some_iff.1 hown).1⟩

end Lawful

end Done

namespace Traffic

variable {t : Traffic} {y z : Done} {newer between later older : List Done}

/-- **The latest taking decides whose row it is**, until that owner id releases it; then there is
no row until the next taking. -/
theorem Run.holder_of_latest (run : Run t) (hlog : t.log = later ++ y :: older) (hy : y.Takes)
    (hlast : ∀ w ∈ later, w.name = y.name → ¬w.Takes) :
    holder t.rows y.name = y.leaves later := by
  induction run generalizing later with
  | start => simp at hlog
  | @step t _ _ run hs ih =>
    have lawful := (run.step hs).proper.lawful
    cases shift_of_step run.proper.inOrder hs with
    | called | gaveUp | elapsed => exact ih hlog hlast
    | @executed i c rows' answer hi ht =>
      cases later with
      | nil =>
        obtain ⟨rfl, rfl⟩ := List.cons.inj hlog
        rw [Done.leaves_nil]
        exact (lawful _ List.mem_cons_self).holder_after_taking hy
      | cons w later =>
        obtain ⟨heq, htail⟩ := List.cons.inj hlog
        have hw : w.Lawful := lawful w (heq ▸ List.mem_cons_self)
        have hbefore : w.before = t.rows := heq ▸ rfl
        have hafter : w.after = rows' := heq ▸ rfl
        show holder rows' y.name = _
        rw [← hafter]
        apply hw.holder_of_later (hlast w List.mem_cons_self)
        rw [hbefore]
        exact ih htail fun v hv => hlast v (List.mem_cons_of_mem _ hv)

/-- **What an earlier holder meets after the row was taken over.** Take a refresh or a release of a
name, by whichever adapter and however late it comes after its reading of the clock, and the
latest taking of the name before it. The refresh is told of the loss, and the release leaves the
rows as they are, exactly if the taking has another owner id, or its row was released since by
its own. Otherwise the refresh moves the end of the row of that other acquisition, and the
release removes it. -/
theorem Run.lost_iff_other_owner (run : Run t)
    (hlog : t.log = newer ++ z :: (between ++ y :: older)) (hy : y.Takes)
    (hlast : ∀ w ∈ between, w.name = y.name → ¬w.Takes) (hn : z.name = y.name) :
    (z.op = .refresh →
      (z.answer = .refresh (.error (.lost (.row z.name z.owner))) ↔
        z.owner ≠ y.owner ∨ y.Vacated between) ∧
      (z.answer = .refresh (.ok ()) ↔ z.owner = y.owner ∧ ¬y.Vacated between)) ∧
    (z.op = .release →
      z.answer = .release (.ok ()) ∧
      (z.after = z.before ↔ z.owner ≠ y.owner ∨ y.Vacated between) ∧
      (holder z.after z.name = none ↔ z.owner = y.owner ∨ y.Vacated between)) := by
  have hz : z.Lawful := run.proper.lawful z (by simp [hlog])
  obtain ⟨t₀, run₀, hlog₀, hrows⟩ := run.exists_before hlog
  have hholder := run₀.holder_of_latest hlog₀ hy hlast
  rw [hrows, ← hn] at hholder
  have hmine : holder z.before z.name = some z.owner ↔
      z.owner = y.owner ∧ ¬y.Vacated between := by
    rw [hholder, Done.leaves_eq_some_iff]
  have hother : holder z.before z.name ≠ some z.owner ↔
      z.owner ≠ y.owner ∨ y.Vacated between := by
    rw [ne_eq, hmine, not_and_or, not_not]
  have hnone : holder z.before z.name = none ↔ y.Vacated between := by
    rw [hholder, Done.leaves_eq_none_iff]
  refine ⟨fun hop => ⟨?_, ?_⟩, fun hop => ⟨(hz.release_outcome hop).1, ?_, ?_⟩⟩
  · rw [hz.lost_iff hop, hother]
  · rw [hz.refreshed_iff hop, hmine]
  · rw [hz.release_unchanged_iff hop, hother]
  · rw [hz.holder_after_release_eq_none_iff hop, hmine, hnone]
    by_cases hv : y.Vacated between <;> simp [hv]

/-- A lease of ten seconds runs out, and another adapter takes the row over. Then the first one
comes back: it refreshes, and releases. -/
def returned (first second : String) : List Move :=
  [.call 0 (errandOf first) .acquire, .execute 0, .elapse 10001,
    .call 1 (errandOf second) .acquire, .execute 0,
    .call 0 (errandOf first) .refresh, .execute 0, .call 0 (errandOf first) .release, .execute 0]

/-- The first adapter finds out if the owner ids differ. -/
theorem lost_of_returned : ∃ (t : Traffic) (first second third fourth : Done),
    Run t ∧ t.log = [fourth, third, second, first] ∧
    (first.home = 0 ∧ first.owner = "a" ∧ first.Takes) ∧
    (second.home = 1 ∧ second.owner = "b" ∧ second.Takes ∧ first.due < second.reading) ∧
    (third.home = 0 ∧ third.op = .refresh ∧
      third.answer = .refresh (.error (.lost (.row third.name "a")))) ∧
    fourth.home = 0 ∧ fourth.op = .release ∧ fourth.after = fourth.before := by
  have order : InOrder .sqlite { table := some [] } [] := ⟨rfl, by decide, rfl, rfl, List.nodup_nil⟩
  have run : Run _ := (@Run.start _ _ _ 0 order (by decide)).replay
    (Option.some_get (x := replay _ (returned "a" "b")) rfl).symm
  have third := (run.lost_iff_other_owner (show _ = [_] ++ _ :: ([] ++ _ :: [_]) from rfl)
    ⟨rfl, rfl⟩ (List.forall_mem_nil _) rfl).1 rfl
  have fourth := (run.lost_iff_other_owner (show _ = [] ++ _ :: ([_] ++ _ :: [_]) from rfl)
    ⟨rfl, rfl⟩ (List.forall_mem_singleton.2 fun _ h => nomatch h.1) rfl).2 rfl
  exact ⟨_, _, _, _, _, run, rfl, ⟨rfl, rfl, rfl, rfl⟩, ⟨rfl, rfl, ⟨rfl, rfl⟩, by decide⟩,
    ⟨rfl, rfl, third.1.2 (.inl (by decide))⟩, rfl, rfl, fourth.2.1.2 (.inl (by decide))⟩

/-- **Under the same owner id the first adapter finds nothing amiss.** The lease has run out and
another adapter has taken the row over, but the refresh of the first one succeeds, and its release
removes the row of the second one. -/
theorem removed_of_returned : ∃ (t : Traffic) (first second third fourth : Done),
    Run t ∧ t.log = [fourth, third, second, first] ∧
    (first.home = 0 ∧ first.owner = "a" ∧ first.Takes) ∧
    (second.home = 1 ∧ second.owner = "a" ∧ second.Takes ∧ first.due < second.reading) ∧
    (third.home = 0 ∧ third.name = first.name ∧ third.op = .refresh ∧
      third.answer = .refresh (.ok ())) ∧
    (fourth.home = 0 ∧ fourth.name = first.name ∧ fourth.op = .release ∧
      holder fourth.before first.name = some "a" ∧ holder fourth.after first.name = none) := by
  have order : InOrder .sqlite { table := some [] } [] := ⟨rfl, by decide, rfl, rfl, List.nodup_nil⟩
  have run : Run _ := (@Run.start _ _ _ 0 order (by decide)).replay
    (Option.some_get (x := replay _ (returned "a" "a")) rfl).symm
  exact ⟨_, _, _, _, _, run, rfl, ⟨rfl, rfl, rfl, rfl⟩, ⟨rfl, rfl, ⟨rfl, rfl⟩, by decide⟩,
    ⟨rfl, rfl, rfl, rfl⟩, rfl, rfl, rfl, rfl, rfl⟩

end Traffic

end LeaseLock.Sql
