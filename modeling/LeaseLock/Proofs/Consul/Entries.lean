import LeaseLock.Consul.Entry
import LeaseLock.Proofs.Json.Values
import LeaseLock.Proofs.Text.Decimal
import Mathlib.Algebra.Group.Nat.Defs
import Mathlib.Data.List.Basic

/-!
# Entries as they are rendered

**Members** (`IsNamed`, `HasOne`). A member has a name if its pieces spell it, whatever escapes they
use. A name that is there once has one value.

**Rendering** (`Renders`). Which objects render an entry: key and index are there once, value and
session at most once, and other members do not matter, as long as their names are texts. An index is
rendered by its digits (`IsIndex`).

**Faults** (`IsFaulty`). A name is missing or there twice, or its value is of another kind.

Reading an entry inverts rendering it: an object is read as the entry that it renders, and as
nothing else (`ofJson?_eq_some_iff`).

Main result: `parse?_iff_renders`.
-/

namespace LeaseLock

open Json (Spells Holds HasUnits decode? decode?_eq_some_iff)

/-! ## Digits of an index -/

/-- **A number that is spelled with digits alone is spelled with its own digits.** -/
theorem Json.IsNumber.eq_toDigits {cs : List Char} {n : Nat} (hc : Json.IsNumber cs)
    (h : Text.Decimal.value? cs = some n) : cs = Nat.toDigits 10 n := by
  rw [Text.Decimal.value?] at h
  split at h
  next hdigits =>
    obtain rfl := Option.some.inj h
    obtain ⟨sign, whole, fraction, exponent, rfl, hsign, hwhole, hfraction, hexponent⟩ := hc
    have hall : ∀ c ∈ sign ++ whole ++ fraction ++ exponent, c.isDigit = true :=
      List.all_eq_true.1 hdigits.2
    simp only [List.mem_append, or_imp, forall_and] at hall
    obtain ⟨⟨⟨hs, -⟩, hf⟩, he⟩ := hall
    obtain rfl : sign = [] := by
      rcases hsign with rfl | rfl
      · rfl
      · exact absurd (hs '-' List.mem_cons_self) (by decide)
    obtain rfl : fraction = [] := by
      rcases hfraction with rfl | ⟨ds, rfl, -⟩
      · rfl
      · exact absurd (hf '.' List.mem_cons_self) (by decide)
    obtain rfl : exponent = [] := by
      rcases hexponent with rfl | ⟨e, sign, ds, rfl, rfl | rfl, -⟩
      · rfl
      · exact absurd (he 'e' List.mem_cons_self) (by decide)
      · exact absurd (he 'E' List.mem_cons_self) (by decide)
    simp only [List.nil_append, List.append_nil]
    exact (Text.Decimal.toDigits_follow_zero hwhole).symm
  · cases h

namespace Consul

/-- A name with a value, as they are spelled. -/
abbrev Member := List Json.Piece × Json.Value

variable {members : List Member} {name s : String} {m : Member} {v : Json.Value} {e : Entry}
  {text? : Option String} {n : Nat} {cs : List Char}

/-! ## Members -/

/-- The member has the name, however that is spelled. -/
def IsNamed (name : String) (m : Member) : Prop := Spells name m.1

/-- There is one member of the name, and that is its value. -/
def HasOne (members : List Member) (name : String) (v : Json.Value) : Prop :=
  ∃ before m after, members = before ++ m :: after ∧ IsNamed name m ∧ m.2 = v ∧
    ∀ m' ∈ before ++ after, ¬IsNamed name m'

/-- There is no member of the name. -/
def Lacks (members : List Member) (name : String) : Prop := ∀ m ∈ members, ¬IsNamed name m

/-- There is more than one member of the name. -/
def Repeats (members : List Member) (name : String) : Prop :=
  ∃ before m after, members = before ++ m :: after ∧ IsNamed name m ∧ ∃ m' ∈ after, IsNamed name m'

/-- The value is a string that spells the text. -/
def IsText (s : String) (v : Json.Value) : Prop := ∃ ps, v = .text ps ∧ Spells s ps

/-- The value is a number that is spelled with the digits of an index of 64 bits. -/
def IsIndex (n : Nat) (v : Json.Value) : Prop := v = .number (Nat.toDigits 10 n) ∧ n < 2 ^ 64

/-- The text that need not be there: null, or no member of the name, if it is not. -/
def RendersOptional (members : List Member) (name : String) : Option String → Prop
  | none => Lacks members name ∨ HasOne members name .null
  | some s => ∃ v, HasOne members name v ∧ IsText s v

/-- **The object renders the entry.** -/
structure Renders (members : List Member) (e : Entry) : Prop where
  /-- All names are texts, also those that do not matter. -/
  named : ∀ m ∈ members, ∃ name, IsNamed name m
  key : ∃ v, HasOne members "Key" v ∧ IsText e.key v
  value : RendersOptional members "Value" e.value
  session : RendersOptional members "Session" e.session
  index : ∃ v, HasOne members "ModifyIndex" v ∧ IsIndex e.modifyIndex v

/-- **The object renders no entry**, since a member is missing, there twice, or of another kind. -/
inductive IsFaulty (members : List Member) : Prop
  | lacks {name : String} : name ∈ ["Key", "ModifyIndex"] → Lacks members name → IsFaulty members
  | repeats {name : String} : name ∈ ["Key", "Value", "Session", "ModifyIndex"] →
      Repeats members name → IsFaulty members
  | key {m : Member} : m ∈ members → IsNamed "Key" m → (∀ s, ¬IsText s m.2) → IsFaulty members
  | optional {name : String} {m : Member} : name ∈ ["Value", "Session"] → m ∈ members →
      IsNamed name m → m.2 ≠ .null → (∀ s, ¬IsText s m.2) → IsFaulty members
  | index {m : Member} : m ∈ members → IsNamed "ModifyIndex" m → (∀ n, ¬IsIndex n m.2) →
      IsFaulty members

/-- The names and texts are spelled with units of 16 bits, and the numbers are numbers. -/
structure IsSpelled (members : List Member) : Prop where
  units : ∀ m ∈ members, ∀ ps, ps = m.1 ∨ .text ps = m.2 → HasUnits ps
  numbers : ∀ m ∈ members, ∀ cs, .number cs = m.2 → Json.IsNumber cs

theorem isSpelled_of_written
    (h : ∀ t ∈ (Json.Value.object members).words, ∃ ds, t.Written ds) : IsSpelled members where
  units m hm ps hps := by
    have ht : Json.Token.text ps = .text m.1 ∨ Json.Token.text ps ∈ m.2.words := by
      rcases hps with rfl | hps
      · exact .inl rfl
      · rw [← hps]
        exact .inr List.mem_cons_self
    obtain ⟨ds, hds⟩ := h _ (Json.mem_words_object hm ht)
    cases hds with
    | text hp => exact Json.hasUnits_of_written hp
  numbers m hm cs hcs := by
    have ht : Json.Token.number cs ∈ m.2.words := by
      rw [← hcs]
      exact List.mem_cons_self
    obtain ⟨ds, hds⟩ := h _ (Json.mem_words_object hm (.inr ht))
    cases hds with
    | number hn => exact hn

theorem isSpelled_of_holds (h : Holds cs (.object members)) : IsSpelled members :=
  isSpelled_of_written fun _ ht => h.exists_written ht

/-! ## Values of a name -/

/-- The values of a name, in order. -/
def valuesOf (members : List Member) (name : String) : List Json.Value :=
  (members.filter fun m => decode? m.1 = some name).map (·.2)

theorem decode?_name_iff (hs : IsSpelled members) (hm : m ∈ members) :
    decode? m.1 = some name ↔ IsNamed name m :=
  decode?_eq_some_iff (hs.units m hm m.1 (.inl rfl))

theorem valuesOf_eq_nil_iff (hs : IsSpelled members) :
    valuesOf members name = [] ↔ Lacks members name := by
  rw [valuesOf, List.map_eq_nil_iff, List.filter_eq_nil_iff]
  refine forall₂_congr fun m hm => not_congr ?_
  rw [decide_eq_true_eq]
  exact decode?_name_iff hs hm

theorem valuesOf_eq_singleton_iff (hs : IsSpelled members) :
    valuesOf members name = [v] ↔ HasOne members name v := by
  have hnamed (m : Member) (hm : m ∈ members) :
      decide (decode? m.1 = some name) = true ↔ IsNamed name m := by
    rw [decide_eq_true_eq]
    exact decode?_name_iff hs hm
  rw [valuesOf, List.map_eq_singleton_iff]
  constructor
  · rintro ⟨m, hm, hv⟩
    obtain ⟨before, after, rfl, hbefore, hp, hafter⟩ := List.filter_eq_cons_iff.1 hm
    refine ⟨before, m, after, rfl, (hnamed m (by simp)).1 hp, hv, fun m' hm' => ?_⟩
    rw [← hnamed m' (by simp at hm' ⊢; tauto)]
    rcases List.mem_append.1 hm' with hm' | hm'
    · exact hbefore m' hm'
    · exact List.filter_eq_nil_iff.1 hafter m' hm'
  · rintro ⟨before, m, after, rfl, hp, hv, hothers⟩
    refine ⟨m, List.filter_eq_cons_iff.2 ⟨before, after, rfl, ?_, ?_, ?_⟩, hv⟩
    · intro m' hm'
      rw [hnamed m' (by simp [hm'])]
      exact hothers m' (List.mem_append_left _ hm')
    · rwa [hnamed m (by simp)]
    · refine List.filter_eq_nil_iff.2 fun m' hm' => ?_
      rw [hnamed m' (by simp [hm'])]
      exact hothers m' (List.mem_append_right _ hm')

/-- What is read of an object are the values of each name, and all names are texts. -/
theorem membersOf_of_members? {ms : List (String × Json.Value)}
    (h : (Json.Value.object members).members? = some ms) :
    (∀ m ∈ members, ∃ name, decode? m.1 = some name) ∧
      ∀ name, Json.membersOf ms name = valuesOf members name := by
  change members.mapM (fun m : Member => (decode? m.1).map (·, m.2)) = some ms at h
  induction members generalizing ms with
  | nil =>
    obtain rfl : [] = ms := by simpa using h
    exact ⟨nofun, fun _ => rfl⟩
  | cons m members ih =>
    simp only [List.mapM_cons, bind, Option.bind_eq_some_iff, Option.map_eq_some_iff, pure,
      Option.some.injEq] at h
    obtain ⟨_, ⟨n, hn, rfl⟩, ms, hms, rfl⟩ := h
    obtain ⟨hnames, hvalues⟩ := ih hms
    refine ⟨List.forall_mem_cons.2 ⟨⟨n, hn⟩, hnames⟩, fun name => ?_⟩
    have htail : (ms.filter fun m => m.1 = name).map (·.2) = valuesOf members name := hvalues name
    by_cases hname : n = name
    · simpa [Json.membersOf, valuesOf, hn, hname] using htail
    · simpa [Json.membersOf, valuesOf, hn, hname] using htail

theorem exists_members? (h : ∀ m ∈ members, ∃ name, decode? m.1 = some name) :
    ∃ ms, (Json.Value.object members).members? = some ms := by
  show ∃ ms, members.mapM (fun m : Member => (decode? m.1).map (·, m.2)) = some ms
  induction members with
  | nil => exact ⟨[], rfl⟩
  | cons m members ih =>
    obtain ⟨⟨n, hn⟩, hrest⟩ := List.forall_mem_cons.1 h
    obtain ⟨ms, hms⟩ := ih hrest
    exact ⟨(n, m.2) :: ms, by simp [List.mapM_cons, hn, hms]⟩

theorem HasOne.exists_mem (h : HasOne members name v) :
    ∃ m ∈ members, IsNamed name m ∧ m.2 = v := by
  obtain ⟨before, m, after, rfl, hn, hv, -⟩ := h
  exact ⟨m, by simp, hn, hv⟩

theorem HasOne.eq_of_mem (h : HasOne members name v) (hm : m ∈ members) (hn : IsNamed name m) :
    m.2 = v := by
  obtain ⟨before, m', after, rfl, -, hv, hothers⟩ := h
  by_cases hmem : m ∈ before ++ after
  · exact absurd hn (hothers m hmem)
  · obtain rfl : m = m' := by
      simp only [List.mem_append, List.mem_cons] at hm hmem
      tauto
    exact hv

/-! ## Values of fields -/

theorem text?_eq_some_iff (h : ∀ ps, .text ps = v → HasUnits ps) :
    v.text? = some s ↔ IsText s v := by
  cases v with
  | text ps =>
    show decode? ps = some s ↔ _
    rw [decode?_eq_some_iff (h ps rfl)]
    constructor
    · exact fun hs => ⟨ps, rfl, hs⟩
    · rintro ⟨_, ⟨⟩, hs⟩
      exact hs
  | null | bool | number | array | object =>
    refine iff_of_false nofun ?_
    rintro ⟨_, ⟨⟩, -⟩

theorem optionalText?_eq_some_iff (h : ∀ ps, .text ps = v → HasUnits ps) :
    Entry.optionalText? v = some text? ↔
      text? = none ∧ v = .null ∨ ∃ s, text? = some s ∧ IsText s v := by
  by_cases hv : v = .null
  · subst hv
    have hnone : ∀ s, ¬IsText s .null := by
      rintro s ⟨_, ⟨⟩, -⟩
    simp [Entry.optionalText?, hnone, eq_comm]
  · have hread : Entry.optionalText? v = v.text?.map some := by
      unfold Entry.optionalText?
      split
      · exact absurd rfl hv
      · rfl
    rw [hread, Option.map_eq_some_iff]
    simp only [hv, and_false, false_or, text?_eq_some_iff h]
    exact exists_congr fun s => and_comm.trans (and_congr_left' eq_comm)

theorem index?_eq_some_iff (h : ∀ cs, .number cs = v → Json.IsNumber cs) :
    Entry.index? v = some n ↔ IsIndex n v := by
  cases v with
  | number cs =>
    show (Text.Decimal.value? cs).filter (· ≤ maxUInt64) = some n ↔ _
    have hrange : n ≤ maxUInt64 ↔ n < 2 ^ 64 := Nat.le_iff_lt_add_one
    rw [Option.filter_eq_some_iff, decide_eq_true_eq, hrange]
    constructor
    · rintro ⟨hv, hn⟩
      exact ⟨congrArg _ ((h cs rfl).eq_toDigits hv), hn⟩
    · rintro ⟨⟨⟩, hn⟩
      exact ⟨Text.Decimal.value?_toDigits n, hn⟩
  | null | bool | text | array | object =>
    refine iff_of_false nofun ?_
    rintro ⟨⟨⟩, -⟩

/-! ## Reading an object -/

theorem ofFields?_eq_some_iff {key value session index : Json.Value} :
    Entry.ofFields? key value session index = some e ↔
      key.text? = some e.key ∧ Entry.optionalText? value = some e.value ∧
        Entry.optionalText? session = some e.session ∧
          Entry.index? index = some e.modifyIndex := by
  simp only [Entry.ofFields?, bind, pure, Option.bind_eq_some_iff, Option.some.injEq]
  constructor
  · rintro ⟨k, hk, v, hv, s, hs, i, hi, rfl⟩
    exact ⟨hk, hv, hs, hi⟩
  · rintro ⟨hk, hv, hs, hi⟩
    exact ⟨_, hk, _, hv, _, hs, _, hi, rfl⟩

theorem required?_eq_some_iff {ms : List (String × Json.Value)} :
    Entry.required? ms name = some v ↔ Json.membersOf ms name = [v] := by
  unfold Entry.required?
  split
  next w hw => simp [hw]
  next hw => exact iff_of_false nofun (hw v)

theorem optional?_eq_some_iff {ms : List (String × Json.Value)} :
    Entry.optional? ms name = some v ↔
      Json.membersOf ms name = [v] ∨ Json.membersOf ms name = [] ∧ v = .null := by
  unfold Entry.optional?
  split
  next hw => simp [hw, eq_comm]
  next w hw => simp [hw]
  next hnil hone => exact iff_of_false nofun fun h => h.elim (hone v) fun h => hnil h.1

variable (hs : IsSpelled members)
include hs

theorem HasOne.hasUnits (h : HasOne members name v) : ∀ ps, .text ps = v → HasUnits ps := by
  obtain ⟨m, hm, -, rfl⟩ := h.exists_mem
  exact fun ps hps => hs.units m hm ps (.inr hps)

theorem HasOne.isNumber (h : HasOne members name v) : ∀ cs, .number cs = v → Json.IsNumber cs := by
  obtain ⟨m, hm, -, rfl⟩ := h.exists_mem
  exact hs.numbers m hm

theorem rendersOptional_iff : RendersOptional members name text? ↔
    ∃ v, (HasOne members name v ∨ Lacks members name ∧ v = .null) ∧
      Entry.optionalText? v = some text? := by
  constructor
  · intro h
    cases text? with
    | none =>
      rcases h with h | h
      · exact ⟨.null, .inr ⟨h, rfl⟩, rfl⟩
      · exact ⟨.null, .inl h, rfl⟩
    | some s =>
      obtain ⟨v, hv, ht⟩ := h
      exact ⟨v, .inl hv, (optionalText?_eq_some_iff (hv.hasUnits hs)).2 (.inr ⟨s, rfl, ht⟩)⟩
  · rintro ⟨v, hv | ⟨hl, rfl⟩, hread⟩
    · rcases (optionalText?_eq_some_iff (hv.hasUnits hs)).1 hread with ⟨rfl, rfl⟩ | ⟨s, rfl, ht⟩
      · exact .inr hv
      · exact ⟨v, hv, ht⟩
    · obtain rfl : none = text? := Option.some.inj hread
      exact .inl hl

/-- **An object is read as the entry that it renders**, and as nothing else. -/
theorem ofJson?_eq_some_iff : Entry.ofJson? (.object members) = some e ↔ Renders members e := by
  have hfields {ms : List (String × Json.Value)}
      (hvalues : ∀ name, Json.membersOf ms name = valuesOf members name) (name : String)
      (v : Json.Value) :
      (Entry.required? ms name = some v ↔ HasOne members name v) ∧
        (Entry.optional? ms name = some v ↔
          HasOne members name v ∨ Lacks members name ∧ v = .null) := by
    rw [required?_eq_some_iff, optional?_eq_some_iff, hvalues, valuesOf_eq_singleton_iff hs,
      valuesOf_eq_nil_iff hs]
    exact ⟨Iff.rfl, Iff.rfl⟩
  show ((Json.Value.object members).members?.bind fun ms => _) = some e ↔ _
  simp only [bind, Option.bind_eq_some_iff, ofFields?_eq_some_iff]
  constructor
  · rintro ⟨ms, hms, k, hk, v, hv, s, hs', i, hi, hkey, hvalue, hsession, hindex⟩
    obtain ⟨hnames, hvalues⟩ := membersOf_of_members? hms
    have hk := (hfields hvalues _ k).1.1 hk
    have hi := (hfields hvalues _ i).1.1 hi
    refine ⟨fun m hm => ?_, ?_, ?_, ?_, ?_⟩
    · obtain ⟨name, hname⟩ := hnames m hm
      exact ⟨name, (decode?_name_iff hs hm).1 hname⟩
    · exact ⟨k, hk, (text?_eq_some_iff (hk.hasUnits hs)).1 hkey⟩
    · exact (rendersOptional_iff hs).2 ⟨v, (hfields hvalues _ v).2.1 hv, hvalue⟩
    · exact (rendersOptional_iff hs).2 ⟨s, (hfields hvalues _ s).2.1 hs', hsession⟩
    · exact ⟨i, hi, (index?_eq_some_iff (hi.isNumber hs)).1 hindex⟩
  · intro h
    obtain ⟨ms, hms⟩ := exists_members? fun m hm => by
      obtain ⟨name, hname⟩ := h.named m hm
      exact ⟨name, (decode?_name_iff hs hm).2 hname⟩
    obtain ⟨-, hvalues⟩ := membersOf_of_members? hms
    obtain ⟨k, hk, hkey⟩ := h.key
    obtain ⟨v, hv, hvalue⟩ := (rendersOptional_iff hs).1 h.value
    obtain ⟨s, hs', hsession⟩ := (rendersOptional_iff hs).1 h.session
    obtain ⟨i, hi, hindex⟩ := h.index
    exact ⟨ms, hms, k, (hfields hvalues _ k).1.2 hk, v, (hfields hvalues _ v).2.2 hv, s,
      (hfields hvalues _ s).2.2 hs', i, (hfields hvalues _ i).1.2 hi,
      (text?_eq_some_iff (hk.hasUnits hs)).2 hkey, hvalue, hsession,
      (index?_eq_some_iff (hi.isNumber hs)).2 hindex⟩

omit hs

/-! ## Faults -/

theorem HasOne.not_lacks (h : HasOne members name v) : ¬Lacks members name := by
  obtain ⟨m, hm, hn, -⟩ := h.exists_mem
  exact fun hl => hl m hm hn

theorem HasOne.not_repeats (hs : IsSpelled members) (h : HasOne members name v) :
    ¬Repeats members name := by
  rintro ⟨before, m, after, hsplit, hm, m', hm', hn'⟩
  have hdecoded (m : Member) (hmem : m ∈ members) (hn : IsNamed name m) :
      decode? m.1 = some name := (decode?_name_iff hs hmem).2 hn
  have hone := (valuesOf_eq_singleton_iff hs).2 h
  have hfirst := hdecoded m (by simp [hsplit]) hm
  have hlater := hdecoded m' (by simp [hsplit, hm']) hn'
  have hvalues : valuesOf members name = valuesOf before name ++ m.2 :: valuesOf after name := by
    simp [valuesOf, hsplit, hfirst]
  rw [hvalues] at hone
  obtain ⟨-, hone⟩ | ⟨-, hnil⟩ := List.append_eq_singleton_iff.1 hone
  · obtain ⟨-, hafter⟩ := List.cons_eq_cons.1 hone
    simp only [valuesOf, List.map_eq_nil_iff, List.filter_eq_nil_iff, decide_eq_true_eq] at hafter
    exact hafter m' hm' hlater
  · cases hnil

theorem Repeats.not_lacks (h : Repeats members name) : ¬Lacks members name := by
  obtain ⟨before, m, after, rfl, hm, -⟩ := h
  exact fun hl => hl m (by simp) hm

theorem RendersOptional.not_repeats (hs : IsSpelled members)
    (h : RendersOptional members name text?) : ¬Repeats members name := by
  cases text? with
  | none => exact h.elim (fun hl hr => hr.not_lacks hl) fun hone => hone.not_repeats hs
  | some s =>
    obtain ⟨v, hone, -⟩ := h
    exact hone.not_repeats hs

theorem RendersOptional.of_mem (h : RendersOptional members name text?) (hm : m ∈ members)
    (hn : IsNamed name m) : m.2 = .null ∨ ∃ s, IsText s m.2 := by
  cases text? with
  | none => exact h.elim (fun hl => absurd hn (hl m hm)) fun hone => .inl (hone.eq_of_mem hm hn)
  | some s =>
    obtain ⟨v, hone, ht⟩ := h
    exact .inr ⟨s, hone.eq_of_mem hm hn ▸ ht⟩

/-- **A faulty object renders no entry.** -/
theorem IsFaulty.not_renders (hs : IsSpelled members) (h : IsFaulty members) :
    ¬Renders members e := by
  intro hr
  obtain ⟨k, hk, hkey⟩ := hr.key
  obtain ⟨i, hi, hindex⟩ := hr.index
  cases h with
  | lacks hname hl =>
    simp only [List.mem_cons, List.not_mem_nil, or_false] at hname
    rcases hname with rfl | rfl
    · exact hk.not_lacks hl
    · exact hi.not_lacks hl
  | repeats hname hrep =>
    simp only [List.mem_cons, List.not_mem_nil, or_false] at hname
    rcases hname with rfl | rfl | rfl | rfl
    · exact hk.not_repeats hs hrep
    · exact hr.value.not_repeats hs hrep
    · exact hr.session.not_repeats hs hrep
    · exact hi.not_repeats hs hrep
  | key hm hn hno => exact hno _ (hk.eq_of_mem hm hn ▸ hkey)
  | @optional name m hname hm hn hnull hno =>
    have hmember : m.2 = .null ∨ ∃ s, IsText s m.2 := by
      simp only [List.mem_cons, List.not_mem_nil, or_false] at hname
      rcases hname with rfl | rfl
      · exact hr.value.of_mem hm hn
      · exact hr.session.of_mem hm hn
    rcases hmember with hv | ⟨s, ht⟩
    · exact hnull hv
    · exact hno s ht
  | index hm hn hno => exact hno _ (hi.eq_of_mem hm hn ▸ hindex)

/-- **Reading an entry inverts rendering it.** A text that holds an object is read as an entry
exactly if the object renders this entry: whatever the order of the members, the escapes in their
names and texts, the blanks between the words, and the other members, with any values in them. An
object that lacks its key or its index, has a member twice, or gives one a value of another kind is
refused. -/
theorem parse?_iff_renders (h : Holds cs (.object members)) :
    (∀ e, Entry.parse? (String.ofList cs) = some e ↔ Renders members e) ∧
      (IsFaulty members → Entry.parse? (String.ofList cs) = none) := by
  have hs := isSpelled_of_holds h
  have hread : Entry.parse? (String.ofList cs) = Entry.ofJson? (.object members) := by
    rw [Entry.parse?, Json.parse?_of_holds h, Option.bind_some]
  rw [hread]
  refine ⟨fun e => ofJson?_eq_some_iff hs, fun hf => Option.eq_none_iff_forall_ne_some.2 ?_⟩
  exact fun e he => hf.not_renders hs ((ofJson?_eq_some_iff hs).1 he)

/-- A character beyond the basic plane as the key, a name that is spelled with an escape, a session
that is null, the largest index, and a member with values that are no texts. -/
def trickyMembers : List Member :=
  [(Json.plain "x", .array [.object [(Json.plain "Key", .text [.unit 0xD83D])], .bool true]),
    (Json.plain "Session", .null),
    ([.char 'K', .char 'e', .unit 0x79], .text [.unit 0xD83D, .unit 0xDE00]),
    (Json.plain "ModifyIndex", .number (Nat.toDigits 10 (2 ^ 64 - 1)))]

/-- An index that is too large. -/
def faultyMembers : List Member :=
  [(Json.plain "Key", .text (Json.plain "k")),
    (Json.plain "ModifyIndex", .number (Nat.toDigits 10 (2 ^ 64)))]

theorem isFaulty_faultyMembers : IsFaulty faultyMembers := by
  refine .index (List.mem_cons_of_mem _ List.mem_cons_self) (Json.spells_plain _) fun n h => ?_
  have hn : 2 ^ 64 = n := by
    rw [← Text.Decimal.follow_toDigits (2 ^ 64), Json.Value.number.inj h.1,
      Text.Decimal.follow_toDigits]
  exact absurd h.2 (by omega)

/-- The tricky members render an entry, and the faulty ones are refused. -/
theorem parse?_iff_renders_tricky :
    Renders trickyMembers { key := "😀", modifyIndex := 2 ^ 64 - 1 } ∧
      Entry.parse? "\x7b\"Key\":\"k\",\"ModifyIndex\":18446744073709551616\x7d" = none := by
  have hread : Entry.parse? (String.ofList
      ((Json.Value.object trickyMembers).words.flatMap Json.Token.write)) =
      some { key := "😀", modifyIndex := 2 ^ 64 - 1 } := by decide +kernel
  have htext : "\x7b\"Key\":\"k\",\"ModifyIndex\":18446744073709551616\x7d" = String.ofList
      ((Json.Value.object faultyMembers).words.flatMap Json.Token.write) := by decide +kernel
  refine ⟨((parse?_iff_renders (Json.holds_write (by decide +kernel))).1 _).1 hread, ?_⟩
  rw [htext]
  exact (parse?_iff_renders (Json.holds_write (by decide +kernel))).2 isFaulty_faultyMembers

end Consul

end LeaseLock
