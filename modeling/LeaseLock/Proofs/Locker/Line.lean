import LeaseLock.Proofs.Locker.Health

/-!
# Who stands in line

**Standing in line** (`Queued`). A call stands in line but for its naps, the renewal loop from when
a tick is taken to when it comes out, and the errand of a dropped locker while it waits.

**The line** (`InLine`). Nobody stands in it twice, and whoever stands in it waits for its turn or
for the service. The invariant is carried by what a step does to the line: a party joins it that
was not in it, or one leaves it, and nobody else moves.

Main result: `Run.line_unused`. When nobody calls a locker that is in use, only a tick can be in the
line.
-/

namespace LeaseLock.Locker

variable {l l₀ l' : Locker} {h : History} {now : Instant} {e : Event} {fx : List Effect}
  {p q : Party} {a : Answer} {n : Nat}

/-- The party waits for its turn, or has had it and waits for the service. -/
def Queued (l : Locker) : Party → Prop
  | .caller n => ∃ c, l.caller? n = some c ∧ ∀ til, c.stage ≠ .napping til
  | .ticker => ∃ t, l.ticker = some t ∧ t.stage ≠ .resting
  | .closer => l.closer = some .waiting

/-- Nobody stands in line twice, and nobody stands there for nothing. -/
structure InLine (l : Locker) : Prop where
  nodup : l.guard.line.Nodup
  queued : ∀ p ∈ l.guard.line, Queued l p

/-! ## Moves of the line -/

theorem InLine.stay (hl : InLine l) (hg : l'.guard = l.guard)
    (hq : ∀ q, Queued l q → Queued l' q) : InLine l' where
  nodup := hg ▸ hl.nodup
  queued q hmem := hq q (hl.queued q (hg ▸ hmem))

theorem InLine.leave (hl : InLine l) (hg : l'.guard = l.guard.leave p)
    (hq : ∀ q, q ≠ p → Queued l q → Queued l' q) : InLine l' where
  nodup := by
    rw [hg]
    exact hl.nodup.erase p
  queued q hmem := by
    rw [hg] at hmem
    obtain ⟨hne, hmem⟩ := hl.nodup.mem_erase_iff.1 hmem
    exact hq q hne (hl.queued q hmem)

theorem InLine.join (hl : InLine l) (hg : l'.guard = l.guard.join p) (hp : ¬Queued l p)
    (hp' : Queued l' p) (hq : ∀ q, Queued l q → Queued l' q) : InLine l' where
  nodup := by
    have hnot : p ∉ l.guard.line := mt (hl.queued p) hp
    rw [hg]
    refine List.nodup_append.2 ⟨hl.nodup, by simp, ?_⟩
    intro q hmem p' hlast heq
    obtain rfl := List.mem_singleton.1 hlast
    exact hnot (heq ▸ hmem)
  queued q hmem := by
    rw [hg] at hmem
    rcases List.mem_append.1 hmem with hmem | hlast
    · exact hq q (hl.queued q hmem)
    · obtain rfl := List.mem_singleton.1 hlast
      exact hp'

/-! ## Who is moved -/

theorem Queued.congr (hq : Queued l q) (hc : ∀ n, l'.caller? n = l.caller? n)
    (ht : l'.ticker = l.ticker) (hcl : l'.closer = l.closer) : Queued l' q := by
  cases q with
  | caller n =>
    obtain ⟨c, hc', hstage⟩ := hq
    exact ⟨c, (hc n).trans hc', hstage⟩
  | ticker =>
    obtain ⟨t, ht', hstage⟩ := hq
    exact ⟨t, ht.trans ht', hstage⟩
  | closer => exact hcl.trans hq

theorem queued_removeCaller (hq : Queued l q) (hne : q ≠ .caller n) :
    Queued (l.removeCaller n) q := by
  cases q with
  | caller m =>
    obtain ⟨c, hc, hstage⟩ := hq
    refine ⟨c, (caller?_removeCaller l n m).trans ?_, hstage⟩
    rw [if_neg fun h => hne (by rw [h]), hc]
  | ticker | closer => exact hq

theorem queued_moveCaller {stage : Caller.Stage} (hq : Queued l q)
    (hs : q = .caller n → ∀ til, stage ≠ .napping til) : Queued (l.moveCaller n stage) q := by
  cases q with
  | caller m =>
    obtain ⟨c, hc, hstage⟩ := hq
    show ∃ c, (l.moveCaller n stage).caller? m = some c ∧ _
    rw [caller?_moveCaller]
    by_cases hm : m = n
    · rw [if_pos hm, hc]
      exact ⟨_, rfl, hs (by rw [hm])⟩
    · rw [if_neg hm]
      exact ⟨c, hc, hstage⟩
  | ticker | closer => exact hq

theorem queued_stopTicker (hq : Queued l q) (hne : q ≠ .ticker) : Queued l.stopTicker q := by
  cases q with
  | caller n => exact hq
  | ticker => exact absurd rfl hne
  | closer => exact hq

theorem inLine_removeCaller (hl : InLine l) (n : Nat) : InLine (l.removeCaller n) :=
  hl.leave rfl fun _ hne hq => queued_removeCaller hq hne

theorem inLine_stopTicker (hl : InLine l) : InLine l.stopTicker :=
  hl.leave rfl fun _ hne hq => queued_stopTicker hq hne

theorem inLine_moveCaller (hl : InLine l) {stage : Caller.Stage}
    (hs : ∀ til, stage ≠ .napping til) : InLine (l.moveCaller n stage) :=
  hl.stay rfl fun _ hq => queued_moveCaller hq fun _ => hs

/-! ## Steps -/

theorem Arrival.inLine (ha : Arrival l now e p l₀) (hl : InLine l) : InLine (l₀.joined p) := by
  cases ha with
  | @call n verb _ hn =>
    refine hl.join rfl ?_ ?_ ?_
    · rintro ⟨c, hc, -⟩
      cases hn.symm.trans hc
    · exact ⟨_, (caller?_addCaller hn _ n).trans (if_pos rfl), nofun⟩
    · intro q hq
      cases q with
      | caller m =>
        obtain ⟨c, hc, hstage⟩ := hq
        refine ⟨c, (caller?_addCaller hn _ m).trans ?_, hstage⟩
        rw [if_neg, hc]
        rintro rfl
        cases hn.symm.trans hc
      | ticker | closer => exact hq
  | @wake n c til hc hnap =>
    refine hl.join rfl ?_ ?_ fun q hq => queued_moveCaller (n := n) hq fun _ => nofun
    · rintro ⟨c', hc', hstage⟩
      cases hc.symm.trans hc'
      exact hstage til hnap
    · exact ⟨{ c with stage := .waiting }, caller?_moved hc .waiting, nofun⟩
  | @tick t ht hrest =>
    refine hl.join rfl ?_ ⟨_, rfl, nofun⟩ ?_
    · rintro ⟨t', ht', hstage⟩
      cases ht.symm.trans ht'
      exact hstage hrest
    · intro q hq
      cases q with
      | caller m => exact hq
      | ticker => exact ⟨_, rfl, nofun⟩
      | closer => exact hq
  | close hc =>
    refine hl.join rfl ?_ rfl ?_
    · intro hq
      cases hc.symm.trans hq
    · intro q hq
      cases q with
      | caller m | ticker => exact hq
      | closer => rfl

theorem Turn.inLine (t : Turn l now p l' fx) (hl : InLine l) : InLine l' := by
  cases t with
  | served => exact inLine_removeCaller hl _
  | surrendered =>
    exact inLine_removeCaller (l := { l with phase := .released }) ⟨hl.nodup, hl.queued⟩ _
  | attempted | refreshed => exact inLine_moveCaller hl nofun
  | unlocked =>
    obtain ⟨nodup, queued⟩ := inLine_stopTicker hl
    exact inLine_moveCaller (l := { l.stopTicker with phase := .released, health := .idle })
      ⟨nodup, queued⟩ nofun
  | ticked =>
    refine hl.stay rfl ?_
    intro q hq
    cases q with
    | caller m => exact hq
    | ticker => exact ⟨_, rfl, nofun⟩
    | closer => exact hq
  | ended => exact inLine_stopTicker hl
  | returnedBack =>
    -- the errand leaves the line, and the loop does
    have hleft : InLine
        { l with phase := .released, guard := l.guard.leave .closer, closer := none } := by
      refine hl.leave rfl ?_
      intro q hne hq
      cases q with
      | caller m | ticker => exact hq
      | closer => exact absurd rfl hne
    refine hleft.leave rfl ?_
    intro q hne hq
    cases q with
    | caller m => exact hq
    | ticker => exact absurd rfl hne
    | closer => cases hq
  | closed =>
    refine hl.leave rfl ?_
    intro q hne hq
    cases q with
    | caller m | ticker => exact hq
    | closer => exact absurd rfl hne

/-- An answer takes the party that hears it out of the line. A grant starts the loop, which does not
stand in line then, since no loop ran before. -/
theorem Heard.inLine (t : Heard l now p a l' fx) (hl : InLine l) (hout : l.callingSince p ≠ none)
    (hnew : ∀ n, p = .caller n → a = .acquire (.ok .granted) → l.ticker = none) : InLine l' := by
  cases t with
  | @granted n c hc =>
    have hnone : l.ticker = none := hnew n rfl rfl
    refine hl.leave (p := .caller n) rfl ?_
    intro q hne hq
    cases q with
    | caller m => exact queued_removeCaller hq hne
    | ticker =>
      obtain ⟨t, ht, -⟩ := hq
      cases hnone.symm.trans ht
    | closer => exact hq
  | refused | refreshed | released => exact inLine_removeCaller hl _
  | @napped n =>
    exact hl.leave (p := .caller n) rfl fun q hne hq => queued_moveCaller hq fun h => absurd h hne
  | ticked =>
    refine hl.leave (p := .ticker) rfl ?_
    intro q hne hq
    cases q with
    | caller m => exact hq
    | ticker => exact absurd rfl hne
    | closer => exact hq
  | closed =>
    refine hl.stay rfl ?_
    intro q hq
    cases q with
    | caller m | ticker => exact hq
    | closer =>
      rw [callingSince_closer, show l.closer = some .waiting from hq] at hout
      exact absurd rfl hout

theorem inLine_drop (hl : InLine l) (hcl : l.closer = none) (errands : Bool) :
    InLine (l.drop errands) := by
  unfold drop
  split
  next hfree =>
    have hline : l.guard.line = [] := by simpa [Guard.isFree] using hfree
    -- nobody stands in a free line, whatever becomes of the rest
    have empty : ∀ {l' : Locker}, l'.guard.line = [] → InLine l' := by
      intro l' h'
      refine ⟨by simp [h'], ?_⟩
      intro p hp
      rw [h'] at hp
      cases hp
    cases l.phase <;> cases errands <;> exact empty (by simp [stopTicker, Guard.leave, hline])
  next =>
    split
    · refine hl.stay rfl ?_
      intro q hq
      cases q with
      | caller m | ticker => exact hq
      | closer => cases hcl.symm.trans hq
    · exact hl.stay rfl fun q hq => hq.congr (fun _ => rfl) rfl rfl

/-- **A step keeps the line in order.** -/
theorem InLine.step (run : Run l h) (hs : Locker.step now l e = some (l', fx)) (hl : InLine l) :
    InLine l' := by
  have fresh : ∀ n, l.callingSince (.caller n) ≠ none → l.opOf (.caller n) = some .acquire →
      l.ticker = none := by
    intro n hout hop
    obtain ⟨c, hc, -⟩ := Option.bind_eq_some_iff.1 hop
    have hidle : l.phase = .idle := run.sound.phase _ _ hout hop
    exact (run.inTune (run.not_dropped hc)).ticker (by simp [hidle])
  cases stepped_of_step hs with
  | joined ha => exact ha.inLine hl
  | turned ha _ t => exact t.inLine (ha.inLine hl)
  | resumed _ t => exact t.inLine hl
  | answered hout t | expired hout _ t =>
    refine t.inLine hl hout ?_
    rintro n rfl ha
    exact fresh n hout (t.opOf.trans (by rw [ha]; rfl))
  | cut | cancelled => exact inLine_removeCaller hl _
  | lapsed => exact inLine_stopTicker hl
  | dropped hd =>
    refine inLine_drop hl ?_ _
    by_contra hne
    cases hd.symm.trans (run.sound.gone hne)
  | sent hc =>
    refine hl.leave rfl ?_
    intro q hne hq
    cases q with
    | caller m => exact hq
    | ticker => exact absurd rfl hne
    | closer => cases hc.symm.trans hq

theorem Run.inLine (run : Run l h) : InLine l := by
  induction run with
  | made hm =>
    obtain ⟨-, rfl⟩ := make_eq_ok_iff.1 hm
    exact ⟨List.nodup_nil, nofun⟩
  | step run _ hs ih => exact ih.step run hs

/-- **Nobody calls**: then the line of a locker in use is free, or a tick alone stands in it. -/
theorem Run.line_unused (run : Run l h) (hd : l.dropped = false) (hc : l.callers = []) :
    l.guard.line = [] ∨
      l.guard.line = [.ticker] ∧ ∃ t, l.ticker = some t ∧ t.stage ≠ .resting := by
  obtain ⟨nodup, queued⟩ := run.inLine
  have alone : ∀ p ∈ l.guard.line, p = .ticker := by
    intro p hp
    have hq := queued p hp
    cases p with
    | caller n =>
      obtain ⟨c, hc', -⟩ := hq
      rw [caller?, hc] at hc'
      cases hc'
    | ticker => rfl
    | closer =>
      have hcl : l.closer = some .waiting := hq
      cases hd.symm.trans (run.sound.gone (by simp [hcl]))
  cases hline : l.guard.line with
  | nil => exact .inl rfl
  | cons p rest =>
    rw [hline] at alone nodup queued
    obtain rfl := alone p List.mem_cons_self
    refine .inr ⟨?_, queued .ticker List.mem_cons_self⟩
    cases rest with
    | nil => rfl
    | cons q rest =>
      obtain rfl := alone q (List.mem_cons_of_mem _ List.mem_cons_self)
      simp at nodup

end LeaseLock.Locker
