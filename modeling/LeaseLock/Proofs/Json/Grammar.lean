import LeaseLock.Json.Value
import Mathlib.Data.List.Chain
import Mathlib.Tactic.Common

/-!
# The grammar of JSON texts

**Spelling.** A string is spelled by pieces (`Spells`): a character stands for itself or is given by
number, as one code unit or as a pair of them. A piece (`Piece.Written`), a number (`IsNumber`) and
a word (`Token.Written`) are written with characters; a piece may be written in several ways.

**Layout** (`Laid`). The words of a text stand one behind another, with any blanks around them. Only
two numbers would run into each other (`Apart`).

**Scanning.** A word that is written at the front of a text is read from there, however the text
goes on (`readToken_append`); so the words are read that were laid out.

Main results: `decode?_eq_some_iff`, `scan?_of_laid`.
-/

namespace LeaseLock.Json

open Text.Hexadecimal (digit?)

variable {ps : List Piece} {cs ds rest : List Char} {t : Token} {ts : List Token}

/-! ## Spelling -/

/-- The pieces spell the characters. -/
inductive SpellsChars : List Char → List Piece → Prop
  | nil : SpellsChars [] []
  | char {c : Char} {cs : List Char} {ps : List Piece} :
      SpellsChars cs ps → SpellsChars (c :: cs) (.char c :: ps)
  /-- A character of the basic plane is one code unit. -/
  | unit {c : Char} {cs : List Char} {ps : List Piece} : c.toNat < 0x10000 →
      SpellsChars cs ps → SpellsChars (c :: cs) (.unit c.toNat :: ps)
  /-- Any other character is a pair of them. -/
  | pair {c : Char} {cs : List Char} {ps : List Piece} : 0x10000 ≤ c.toNat →
      SpellsChars cs ps → SpellsChars (c :: cs)
        (.unit (0xD800 + (c.toNat - 0x10000) / 0x400) ::
          .unit (0xDC00 + (c.toNat - 0x10000) % 0x400) :: ps)

/-- The pieces spell the string. -/
def Spells (s : String) (ps : List Piece) : Prop := SpellsChars s.toList ps

/-- A hexadecimal digit of the value `n`, small or capital. -/
def IsHexDigit (n : Nat) (c : Char) : Prop :=
  n < 16 ∧ (c = Nat.digitChar n ∨ c = (Nat.digitChar n).toUpper)

/-- The short escapes: the letter behind the backslash, and the character that it stands for. -/
def shortEscapes : List (Char × Char) :=
  [('"', '"'), ('\\', '\\'), ('/', '/'), ('b', '\x08'), ('f', '\x0c'), ('n', '\n'), ('r', '\r'),
    ('t', '\t')]

/-- How a piece is written between the quotes. -/
inductive Piece.Written : Piece → List Char → Prop
  | plain {c : Char} : 32 ≤ c.toNat → c ≠ '"' → c ≠ '\\' → Written (.char c) [c]
  | short {e c : Char} : (e, c) ∈ shortEscapes → Written (.char c) ['\\', e]
  | unit {n₁ n₂ n₃ n₄ : Nat} {c₁ c₂ c₃ c₄ : Char} : IsHexDigit n₁ c₁ → IsHexDigit n₂ c₂ →
      IsHexDigit n₃ c₃ → IsHexDigit n₄ c₄ →
      Written (.unit (n₁ * 0x1000 + n₂ * 0x100 + n₃ * 0x10 + n₄)) ['\\', 'u', c₁, c₂, c₃, c₄]

/-- How pieces are written one behind another. -/
inductive PiecesWritten : List Piece → List Char → Prop
  | nil : PiecesWritten [] []
  | cons {p : Piece} {ps : List Piece} {cs ds : List Char} :
      p.Written cs → PiecesWritten ps ds → PiecesWritten (p :: ps) (cs ++ ds)

/-- One or more digits. -/
def IsDigits (cs : List Char) : Prop := cs ≠ [] ∧ ∀ c ∈ cs, c.isDigit = true

/-- The whole part of a number, without a needless zero at its front. -/
def IsWhole (cs : List Char) : Prop := cs = ['0'] ∨ IsDigits cs ∧ cs.head? ≠ some '0'

/-- A fraction, or none. -/
def IsFraction (cs : List Char) : Prop := cs = [] ∨ ∃ ds, cs = '.' :: ds ∧ IsDigits ds

/-- An exponent, or none. -/
def IsExponent (cs : List Char) : Prop :=
  cs = [] ∨ ∃ e sign ds, cs = e :: (sign ++ ds) ∧ (e = 'e' ∨ e = 'E') ∧
    (sign = [] ∨ sign = ['+'] ∨ sign = ['-']) ∧ IsDigits ds

/-- How a number may be spelled. -/
def IsNumber (cs : List Char) : Prop :=
  ∃ sign whole fraction exponent, cs = sign ++ whole ++ fraction ++ exponent ∧
    (sign = [] ∨ sign = ['-']) ∧ IsWhole whole ∧ IsFraction fraction ∧ IsExponent exponent

/-- How a word is written. -/
inductive Token.Written : Token → List Char → Prop
  | objectOpen : Written .objectOpen ['\x7b']
  | objectClose : Written .objectClose ['\x7d']
  | arrayOpen : Written .arrayOpen ['[']
  | arrayClose : Written .arrayClose [']']
  | colon : Written .colon [':']
  | comma : Written .comma [',']
  | null : Written .null ['n', 'u', 'l', 'l']
  | yes : Written (.bool true) ['t', 'r', 'u', 'e']
  | no : Written (.bool false) ['f', 'a', 'l', 's', 'e']
  | number {cs : List Char} : IsNumber cs → Written (.number cs) cs
  | text {ps : List Piece} {cs : List Char} :
      PiecesWritten ps cs → Written (.text ps) ('"' :: cs ++ ['"'])

/-- All of it is white space. -/
def IsBlank (cs : List Char) : Prop := ∀ c ∈ cs, c ∈ [' ', '\n', '\t', '\r']

/-- The words stand in the text, in order, with blanks around them. -/
inductive Laid : List Token → List Char → Prop
  | nil {blank : List Char} : IsBlank blank → Laid [] blank
  | cons {blank cs rest : List Char} {t : Token} {ts : List Token} :
      IsBlank blank → t.Written cs → Laid ts rest → Laid (t :: ts) (blank ++ cs ++ rest)

/-! ## Reading strings -/

theorem digit?_of_isHexDigit {n : Nat} {c : Char} (h : IsHexDigit n c) : digit? c = some n := by
  have all : ∀ n < 16, digit? (Nat.digitChar n) = some n ∧
      digit? (Nat.digitChar n).toUpper = some n := by decide
  obtain ⟨hn, rfl | rfl⟩ := h
  · exact (all n hn).1
  · exact (all n hn).2

theorem shortEscape?_of_mem {e c : Char} (h : (e, c) ∈ shortEscapes) :
    shortEscape? e = some c ∧ e ≠ 'u' := by
  have all : ∀ p ∈ shortEscapes, shortEscape? p.1 = some p.2 ∧ p.1 ≠ 'u' := by
    simp [shortEscapes, shortEscape?]
  exact all (e, c) h

/-- A piece that is written at the front is read first. -/
theorem readText_append {p : Piece} (h : p.Written cs) (rest : List Char) :
    readText (cs ++ rest) = (readText rest).map (prepend p) := by
  cases h with
  | @plain c hc hquote hslash =>
    have hplain : ¬(c.toNat < 32 ∨ c = '\\') := by simp [hslash]; omega
    show readText (c :: rest) = _
    rw [readText]
    · simp only [if_neg hplain]
      cases readText rest <;> rfl
    · exact hquote
    · intro a b c d cs hc
      exact absurd hc hslash
    · intro e cs hc
      exact absurd hc hslash
  | @short e c hmem =>
    obtain ⟨hescape, hu⟩ := shortEscape?_of_mem hmem
    show readText ('\\' :: e :: rest) = _
    rw [readText]
    · simp only [hescape, bind, Option.bind_some]
      cases readText rest <;> rfl
    · intro a b c d cs he
      exact absurd he hu
  | @unit n₁ n₂ n₃ n₄ c₁ c₂ c₃ c₄ h₁ h₂ h₃ h₄ =>
    show readText ('\\' :: 'u' :: c₁ :: c₂ :: c₃ :: c₄ :: rest) = _
    have hunit : unit? c₁ c₂ c₃ c₄ = some (n₁ * 0x1000 + n₂ * 0x100 + n₃ * 0x10 + n₄) := by
      simp only [unit?, digit?_of_isHexDigit h₁, digit?_of_isHexDigit h₂, digit?_of_isHexDigit h₃,
        digit?_of_isHexDigit h₄, bind, Option.bind_some, pure, Option.some.injEq]
      omega
    rw [readText]
    simp only [hunit, bind, Option.bind_some]
    cases readText rest <;> rfl

/-- **A string is read up to its closing quote.** -/
theorem readText_of_written (h : PiecesWritten ps cs) (rest : List Char) :
    readText (cs ++ '"' :: rest) = some (ps, rest) := by
  induction h with
  | nil => rfl
  | cons hp _ ih =>
    rw [List.append_assoc, readText_append hp, ih]
    rfl

/-! ## The characters that pieces spell -/

/-- The code units among the pieces have 16 bits. -/
def HasUnits (ps : List Piece) : Prop := ∀ u, .unit u ∈ ps → u < 0x10000

theorem HasUnits.tail {p : Piece} (h : HasUnits (p :: ps)) : HasUnits ps :=
  fun u hu => h u (List.mem_cons_of_mem _ hu)

theorem toNat_ofNat_of_isValidChar {n : Nat} (h : n.isValidChar) : (Char.ofNat n).toNat = n := by
  unfold Char.ofNat
  rw [dif_pos h]
  rfl

theorem isValidChar_toNat (c : Char) : c.toNat.isValidChar := c.valid

theorem combine_of_le {c : Char} (h : 0x10000 ≤ c.toNat) :
    isHigh (0xD800 + (c.toNat - 0x10000) / 0x400) = true ∧
      isLow (0xDC00 + (c.toNat - 0x10000) % 0x400) = true ∧
      combine (0xD800 + (c.toNat - 0x10000) / 0x400)
        (0xDC00 + (c.toNat - 0x10000) % 0x400) = c := by
  have hc : c.toNat < 0x110000 := by
    rcases isValidChar_toNat c with h | h <;> omega
  have hlow : (c.toNat - 0x10000) % 0x400 < 0x400 := Nat.mod_lt _ (by decide)
  refine ⟨?_, ?_, ?_⟩
  · simp only [isHigh, Bool.and_eq_true, decide_eq_true_eq]
    omega
  · simp only [isLow, Bool.and_eq_true, decide_eq_true_eq]
    omega
  unfold combine
  have hsum : 0x10000 + (0xD800 + (c.toNat - 0x10000) / 0x400 - 0xD800) * 0x400 +
      (0xDC00 + (c.toNat - 0x10000) % 0x400 - 0xDC00) = c.toNat := by omega
  rw [hsum, Char.ofNat_toNat]

theorem characters?_of_spells (h : SpellsChars cs ps) : characters? ps = some cs := by
  induction h with
  | nil => rfl
  | char _ ih => simp [characters?, ih]
  | @unit c cs ps hc _ ih =>
    have hsurrogate : isHigh c.toNat = false ∧ isLow c.toNat = false := by
      simp only [isHigh, isLow, Bool.and_eq_false_iff, decide_eq_false_iff_not]
      rcases isValidChar_toNat c with h | h <;> omega
    rw [characters?.eq_def]
    simp [hsurrogate, ih]
  | pair hc _ ih =>
    obtain ⟨hhigh, hlow, hcombine⟩ := combine_of_le hc
    simp [characters?, hhigh, hlow, hcombine, ih]

theorem spells_of_characters? (hu : HasUnits ps) (h : characters? ps = some cs) :
    SpellsChars cs ps := by
  fun_induction characters? ps generalizing cs with
  | case1 =>
    cases h
    exact .nil
  | case2 c ps ih =>
    obtain ⟨ds, hds, rfl⟩ := Option.map_eq_some_iff.1 h
    exact .char (ih hu.tail hds)
  | case3 u hhigh v ps' hlow ih =>
    obtain ⟨ds, hds, rfl⟩ := Option.map_eq_some_iff.1 h
    simp only [isHigh, isLow, Bool.and_eq_true, decide_eq_true_eq] at hhigh hlow
    have hvalid : (0x10000 + (u - 0xD800) * 0x400 + (v - 0xDC00)).isValidChar := by
      simp only [Nat.isValidChar]
      omega
    have hc := toNat_ofNat_of_isValidChar hvalid
    have hfirst : u = 0xD800 + ((combine u v).toNat - 0x10000) / 0x400 := by
      simp only [combine, hc]
      omega
    have hsecond : v = 0xDC00 + ((combine u v).toNat - 0x10000) % 0x400 := by
      simp only [combine, hc]
      omega
    have hpair := SpellsChars.pair (c := combine u v) (by simp only [combine, hc]; omega)
      (ih hu.tail.tail hds)
    rwa [← hfirst, ← hsecond] at hpair
  | case4 | case5 | case6 => cases h
  | case7 u ps hhigh hlow ih =>
    obtain ⟨ds, hds, rfl⟩ := Option.map_eq_some_iff.1 h
    have hu16 : u < 0x10000 := hu u List.mem_cons_self
    have hvalid : u.isValidChar := by
      simp only [isHigh, isLow, Bool.and_eq_true, decide_eq_true_eq, not_and] at hhigh hlow
      simp only [Nat.isValidChar]
      omega
    have hc := toNat_ofNat_of_isValidChar hvalid
    have hunit := SpellsChars.unit (c := Char.ofNat u) (by rwa [hc]) (ih hu.tail hds)
    rwa [hc] at hunit

/-- **The value of a string is what its pieces spell.** -/
theorem decode?_eq_some_iff (hu : HasUnits ps) {s : String} :
    decode? ps = some s ↔ Spells s ps := by
  unfold decode?
  rw [Option.map_eq_some_iff]
  constructor
  · rintro ⟨cs, hcs, rfl⟩
    rw [Spells, String.toList_ofList]
    exact spells_of_characters? hu hcs
  · exact fun h => ⟨s.toList, characters?_of_spells h, String.ofList_toList⟩

theorem hasUnits_of_written (h : PiecesWritten ps cs) : HasUnits ps := by
  induction h with
  | nil => exact nofun
  | cons hp _ ih =>
    intro u hu
    rcases List.mem_cons.1 hu with rfl | hu
    · cases hp with
      | unit h₁ h₂ h₃ h₄ =>
        have := h₁.1
        have := h₂.1
        have := h₃.1
        have := h₄.1
        omega
    · exact ih u hu

/-! ## Reading numbers -/

/-- The text does not begin with a character that could go on with a number. -/
def Halts (cs : List Char) : Prop :=
  ∀ c ds, cs = c :: ds → c.isDigit = false ∧ c ≠ '.' ∧ c ≠ 'e' ∧ c ≠ 'E'

theorem Halts.nil : Halts [] := nofun

theorem Halts.cons {c : Char} (hd : c.isDigit = false) (hm : c ∉ ['.', 'e', 'E']) (cs : List Char) :
    Halts (c :: cs) := by
  rintro _ _ ⟨⟩
  simpa [hd] using hm

/-- The text does not begin with a digit. -/
def HasNoDigit (cs : List Char) : Prop := ∀ c ds, cs = c :: ds → c.isDigit = false

theorem Halts.hasNoDigit (h : Halts cs) : HasNoDigit cs := fun c ds hc => (h c ds hc).1

theorem readDigits_append_of_forall (hds : ∀ c ∈ ds, c.isDigit = true) (hrest : HasNoDigit rest) :
    readDigits (ds ++ rest) = (ds, rest) := by
  have hnone : rest.takeWhile Char.isDigit = [] ∧ rest.dropWhile Char.isDigit = rest := by
    cases rest with
    | nil => exact ⟨rfl, rfl⟩
    | cons c cs => simp [hrest c cs rfl]
  rw [readDigits, List.takeWhile_append_of_pos hds, List.dropWhile_append_of_pos hds, hnone.1,
    hnone.2, List.append_nil]

theorem readSome_append_of_isDigits (before : List Char) (h : IsDigits ds)
    (hrest : HasNoDigit rest) : readSome before (ds ++ rest) = some (before ++ ds, rest) := by
  simp only [readSome, readDigits_append_of_forall h.2 hrest]
  exact if_neg (by simpa using h.1)

theorem readWhole_append_of_isWhole (h : IsWhole cs) (hrest : HasNoDigit rest) :
    readWhole (cs ++ rest) = some (cs, rest) := by
  rcases h with rfl | ⟨⟨hne, hall⟩, hzero⟩
  · rfl
  · cases cs with
    | nil => exact absurd rfl hne
    | cons c cs =>
      have hc : c ≠ '0' := by simpa using hzero
      show readWhole (c :: (cs ++ rest)) = _
      rw [readWhole]
      · rw [if_pos (hall c List.mem_cons_self), ← List.cons_append,
          readDigits_append_of_forall hall hrest]
      · exact fun h => absurd h hc

theorem readFraction_append_of_isFraction (h : IsFraction cs) (hrest : HasNoDigit rest)
    (hdot : rest.head? ≠ some '.') : readFraction (cs ++ rest) = some (cs, rest) := by
  rcases h with rfl | ⟨ds, rfl, hds⟩
  · rw [List.nil_append]
    cases rest with
    | nil => rfl
    | cons c cs =>
      rw [readFraction]
      rintro ds ⟨⟩
      exact hdot rfl
  · exact readSome_append_of_isDigits ['.'] hds hrest

theorem readExponent_append_of_isExponent (h : IsExponent cs) (hrest : Halts rest) :
    readExponent (cs ++ rest) = some (cs, rest) := by
  rcases h with rfl | ⟨e, sign, ds, rfl, he, hsign, hds⟩
  · match rest, hrest with
    | [], _ => rfl
    | [c], hrest =>
      obtain ⟨-, -, hc⟩ := hrest c [] rfl
      exact if_neg (by simpa using hc)
    | c :: d :: cs, hrest =>
      obtain ⟨-, -, hc⟩ := hrest c (d :: cs) rfl
      exact if_neg (by simpa using hc)
  · have hdigits (before : List Char) := readSome_append_of_isDigits before hds hrest.hasNoDigit
    obtain ⟨d, ds', rfl⟩ := List.exists_cons_of_ne_nil hds.1
    have hd : d.isDigit = true := hds.2 d List.mem_cons_self
    have hplain : ¬(d = '+' ∨ d = '-') := by
      rintro (rfl | rfl) <;> cases hd
    rcases hsign with rfl | rfl | rfl
    · show readExponent (e :: d :: (ds' ++ rest)) = _
      rw [readExponent, if_pos he, if_neg hplain]
      exact hdigits [e]
    · show readExponent (e :: '+' :: (d :: ds' ++ rest)) = _
      rw [readExponent, if_pos he, if_pos (.inl rfl)]
      exact hdigits [e, '+']
    · show readExponent (e :: '-' :: (d :: ds' ++ rest)) = _
      rw [readExponent, if_pos he, if_pos (.inr rfl)]
      exact hdigits [e, '-']

theorem IsFraction.hasNoDigit (h : IsFraction cs) (hrest : HasNoDigit rest) :
    HasNoDigit (cs ++ rest) := by
  rcases h with rfl | ⟨ds, rfl, -⟩
  · exact hrest
  · rintro _ _ ⟨⟩
    rfl

theorem IsExponent.hasNoDigit (h : IsExponent cs) (hrest : HasNoDigit rest) :
    HasNoDigit (cs ++ rest) := by
  rcases h with rfl | ⟨e, sign, ds, rfl, rfl | rfl, -⟩
  · exact hrest
  · rintro _ _ ⟨⟩
    rfl
  · rintro _ _ ⟨⟩
    rfl

theorem IsExponent.head?_ne (h : IsExponent cs) (hrest : rest.head? ≠ some '.') :
    (cs ++ rest).head? ≠ some '.' := by
  rcases h with rfl | ⟨e, sign, ds, rfl, rfl | rfl, -⟩
  · exact hrest
  · simp
  · simp

theorem Halts.head?_ne (h : Halts rest) : rest.head? ≠ some '.' := by
  cases rest with
  | nil => simp
  | cons c cs => simpa using (h c cs rfl).2.1

theorem readNumber_unsigned {cs₁ cs₂ whole fraction exponent : List Char}
    (h : cs.head? ≠ some '-') (hw : readWhole cs = some (whole, cs₁))
    (hf : readFraction cs₁ = some (fraction, cs₂)) (he : readExponent cs₂ = some (exponent, rest)) :
    readNumber cs = some (whole ++ (fraction ++ exponent), rest) := by
  unfold readNumber
  split
  next sign front heq =>
    split at heq
    · exact absurd rfl h
    · cases heq
      simp [hw, hf, he]

theorem readNumber_negative {cs₁ cs₂ whole fraction exponent : List Char}
    (hw : readWhole cs = some (whole, cs₁)) (hf : readFraction cs₁ = some (fraction, cs₂))
    (he : readExponent cs₂ = some (exponent, rest)) :
    readNumber ('-' :: cs) = some ('-' :: (whole ++ (fraction ++ exponent)), rest) := by
  simp [readNumber, hw, hf, he]

/-- **A number is read up to its end**, if what follows cannot go on with it. -/
theorem readNumber_of_isNumber (h : IsNumber cs) (hrest : Halts rest) :
    readNumber (cs ++ rest) = some (cs, rest) := by
  obtain ⟨sign, whole, fraction, exponent, rfl, hsign, hwhole, hfraction, hexponent⟩ := h
  have hdigit := hexponent.hasNoDigit hrest.hasNoDigit
  have w := readWhole_append_of_isWhole hwhole (hfraction.hasNoDigit hdigit)
  have f := readFraction_append_of_isFraction hfraction hdigit
    (hexponent.head?_ne hrest.head?_ne)
  have e := readExponent_append_of_isExponent hexponent hrest
  have hfront : (whole ++ (fraction ++ (exponent ++ rest))).head? ≠ some '-' := by
    rcases hwhole with rfl | ⟨⟨hne, hall⟩, -⟩
    · simp
    · obtain ⟨c, cs, rfl⟩ := List.exists_cons_of_ne_nil hne
      rintro ⟨⟩
      cases hall '-' List.mem_cons_self
  simp only [List.append_assoc]
  rcases hsign with rfl | rfl
  · rw [List.nil_append, List.nil_append]
    exact readNumber_unsigned hfront w f e
  · rw [List.singleton_append, List.singleton_append]
    exact readNumber_negative w f e

/-! ## Reading words -/

/-- The word is a number. -/
def Token.isNumber : Token → Bool
  | .number _ => true
  | _ => false

/-- No two numbers stand next to each other. -/
def Apart (ts : List Token) : Prop := ts.IsChain fun t u => ¬(t.isNumber = true ∧ u.isNumber = true)

theorem IsNumber.head (h : IsNumber cs) :
    ∃ c ds, cs = c :: ds ∧ (c = '-' ∨ c.isDigit = true) := by
  obtain ⟨sign, whole, fraction, exponent, rfl, rfl | rfl, hwhole, -, -⟩ := h
  · rcases hwhole with rfl | ⟨⟨hne, hall⟩, -⟩
    · exact ⟨_, _, rfl, .inr rfl⟩
    · obtain ⟨c, cs, rfl⟩ := List.exists_cons_of_ne_nil hne
      exact ⟨c, _, rfl, .inr (hall c List.mem_cons_self)⟩
  · exact ⟨_, _, rfl, .inl rfl⟩

theorem readToken_of_number {c : Char} (h : c = '-' ∨ c.isDigit = true) (cs : List Char) :
    readToken (c :: cs) =
      (readNumber (c :: cs)).map fun (spelling, rest) => (.number spelling, rest) := by
  have hne (d : Char) (hd : d.isDigit = false) (hm : d ≠ '-') : c ≠ d := by
    rintro rfl
    simp [hd, hm] at h
  rw [readToken]
  all_goals intros; exact absurd ‹c = _› (hne _ (by decide) (by decide))

/-- **A word that is written at the front is read first**, if it does not run into what follows. -/
theorem readToken_append (h : t.Written cs) (hrest : t.isNumber = true → Halts rest) :
    readToken (cs ++ rest) = some (t, rest) := by
  cases h with
  | number hn =>
    obtain ⟨c, ds, rfl, hc⟩ := hn.head
    rw [List.cons_append, readToken_of_number hc, ← List.cons_append,
      readNumber_of_isNumber hn (hrest rfl)]
    rfl
  | text hp =>
    simp only [List.append_assoc, List.cons_append, List.nil_append, readToken,
      readText_of_written hp]
    rfl
  | objectOpen | objectClose | arrayOpen | arrayClose | colon | comma | null | yes | no => rfl

/-! ## Reading a text -/

theorem scan?_blank {blank : List Char} (h : IsBlank blank) (cs : List Char) :
    scan? (blank ++ cs) = scan? cs := by
  induction blank with
  | nil => rfl
  | cons c blank ih =>
    have hc : isBlank c = true := by
      have := h c List.mem_cons_self
      simp only [List.mem_cons, List.not_mem_nil, or_false] at this
      rcases this with rfl | rfl | rfl | rfl <;> rfl
    rw [List.cons_append, scan?, if_pos hc]
    exact ih fun d hd => h d (List.mem_cons_of_mem _ hd)

theorem scan?_of_readToken (hb : cs.head?.any isBlank = false)
    (h : readToken cs = some (t, rest)) : scan? cs = (scan? rest).map (t :: ·) := by
  cases cs with
  | nil => cases h
  | cons c cs =>
    have hc : ¬isBlank c = true := by simpa using hb
    rw [scan?, if_neg hc]
    split
    next heq =>
      cases h.symm.trans heq
      rfl
    next heq => cases h.symm.trans heq

/-- A word begins with no blank, and only a number with what could go on with one. -/
theorem Token.Written.head (h : t.Written cs) : ∃ c ds, cs = c :: ds ∧ isBlank c = false ∧
    (t.isNumber = false → Halts cs) := by
  cases h with
  | number hn =>
    obtain ⟨c, ds, rfl, hc⟩ := hn.head
    refine ⟨c, ds, rfl, ?_, fun h => by cases h⟩
    cases hb : isBlank c with
    | false => rfl
    | true =>
      simp only [isBlank, Bool.or_eq_true, beq_iff_eq] at hb
      rcases hb with ((rfl | rfl) | rfl) | rfl <;> simp at hc
  | text | objectOpen | objectClose | arrayOpen | arrayClose | colon | comma | null | yes | no =>
    exact ⟨_, _, rfl, rfl, fun _ => .cons (by decide) (by decide) _⟩

theorem Laid.halts (h : Laid ts cs) (ht : ∀ t ∈ ts.head?, t.isNumber = false) : Halts cs := by
  have blank {bs : List Char} (hb : IsBlank bs) {ds : List Char} (hd : Halts ds) :
      Halts (bs ++ ds) := by
    cases bs with
    | nil => exact hd
    | cons c bs =>
      have hc := hb c List.mem_cons_self
      simp only [List.mem_cons, List.not_mem_nil, or_false] at hc
      rcases hc with rfl | rfl | rfl | rfl <;> exact .cons (by decide) (by decide) _
  cases h with
  | nil hb => simpa using blank hb .nil
  | @cons bs w rest t ts hb hw _ =>
    rw [List.append_assoc]
    refine blank hb ?_
    obtain ⟨c, ds, rfl, -, hhalts⟩ := hw.head
    obtain ⟨hd, hdot, he⟩ := hhalts (ht t rfl) c ds rfl
    exact .cons hd (by simp [hdot, he]) _

/-- **The words of a text are read as they are laid out.** -/
theorem scan?_of_laid (h : Laid ts cs) (ha : Apart ts) : scan? cs = some ts := by
  induction h with
  | nil hb =>
    have := scan?_blank hb []
    rw [List.append_nil] at this
    rw [this, scan?]
  | @cons blank w rest t ts hb hw hrest ih =>
    obtain ⟨hnext, hts⟩ := List.isChain_cons.1 ha
    have hhalts (hn : t.isNumber = true) : Halts rest := by
      refine hrest.halts fun u hu => ?_
      simpa [hn] using hnext u hu
    obtain ⟨c, ds, rfl, hc, -⟩ := hw.head
    rw [List.append_assoc, scan?_blank hb,
      scan?_of_readToken (by simpa using hc) (readToken_append hw hhalts), ih hts]
    rfl

theorem Laid.exists_written (h : Laid ts cs) (ht : t ∈ ts) : ∃ ds, t.Written ds := by
  induction h with
  | nil => cases ht
  | cons _ hw _ ih =>
    rcases List.mem_cons.1 ht with rfl | ht
    · exact ⟨_, hw⟩
    · exact ih ht

end LeaseLock.Json
