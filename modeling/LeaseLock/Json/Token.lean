import LeaseLock.Text.Hexadecimal

/-!
# Tokens of JSON

**Texts** (`Json.Piece`). A string is read as it is spelled: characters, and code units of 16 bits
given by number. Only when its value is asked for (`Json.decode?`) do the units have to make up
characters: a high surrogate followed by a low one, and neither on its own.

**Numbers** are kept as they are spelled.

**Tokens** (`Json.Token`). The words of a JSON text, which blanks may surround. `Json.scan?` reads
a text word by word; it refuses what is no word.
-/

namespace LeaseLock.Json

open Text.Hexadecimal (digit?)

/-- A part of a string as it is spelled. -/
inductive Piece where
  /-- A character, written as such or by a short escape. -/
  | char (c : Char)
  /-- A code unit, written by its number. -/
  | unit (u : Nat)
deriving DecidableEq, Repr

/-- A word of a JSON text. -/
inductive Token where
  | objectOpen
  | objectClose
  | arrayOpen
  | arrayClose
  /-- What stands between a name and its value. -/
  | colon
  /-- What stands between members or items. -/
  | comma
  | null
  | bool (b : Bool)
  /-- A number as it is spelled. -/
  | number (spelling : List Char)
  /-- A string as it is spelled. -/
  | text (pieces : List Piece)
deriving DecidableEq, Repr

/-! ## Strings -/

/-- The code unit that four hexadecimal digits stand for. -/
def unit? (a b c d : Char) : Option Nat := do
  return ((← digit? a) * 16 + (← digit? b)) * 256 + (← digit? c) * 16 + (← digit? d)

/-- The character that a short escape stands for. -/
def shortEscape? : Char → Option Char
  | '"' => some '"'
  | '\\' => some '\\'
  | '/' => some '/'
  | 'b' => some '\x08'
  | 'f' => some '\x0c'
  | 'n' => some '\n'
  | 'r' => some '\r'
  | 't' => some '\t'
  | _ => none

/-- A piece before those that were read after it. -/
def prepend (p : Piece) (read : List Piece × List Char) : List Piece × List Char :=
  (p :: read.1, read.2)

/-- Reads the rest of a string up to its closing quote. -/
def readText : List Char → Option (List Piece × List Char)
  | [] => none
  | '"' :: cs => some ([], cs)
  | '\\' :: 'u' :: a :: b :: c :: d :: cs => do
    let u ← unit? a b c d
    return prepend (.unit u) (← readText cs)
  | '\\' :: e :: cs => do
    let c ← shortEscape? e
    return prepend (.char c) (← readText cs)
  | c :: cs =>
    if c.toNat < 32 ∨ c = '\\' then none
    else do return prepend (.char c) (← readText cs)

/-- The unit is the first half of a character. -/
def isHigh (u : Nat) : Bool := 0xD800 ≤ u && u < 0xDC00

/-- The unit is the second half of a character. -/
def isLow (u : Nat) : Bool := 0xDC00 ≤ u && u < 0xE000

/-- The character that two units make up. -/
def combine (high low : Nat) : Char :=
  Char.ofNat (0x10000 + (high - 0xD800) * 0x400 + (low - 0xDC00))

/-- The characters that the pieces make up, if no half of a character stands alone. -/
def characters? : List Piece → Option (List Char)
  | [] => some []
  | .char c :: ps => (characters? ps).map (c :: ·)
  | .unit u :: ps =>
    if isHigh u then
      match ps with
      | .unit v :: ps => if isLow v then (characters? ps).map (combine u v :: ·) else none
      | _ => none
    else if isLow u then none
    else (characters? ps).map (Char.ofNat u :: ·)

/-- The value of a string. -/
def decode? (ps : List Piece) : Option String := (characters? ps).map String.ofList

/-! ## Numbers -/

/-- The digits at the front, and the rest. -/
def readDigits (cs : List Char) : List Char × List Char :=
  (cs.takeWhile Char.isDigit, cs.dropWhile Char.isDigit)

/-- Reads the whole part of a number, which has no needless zero at its front. -/
def readWhole : List Char → Option (List Char × List Char)
  | '0' :: cs => some (['0'], cs)
  | c :: cs => if c.isDigit then some (readDigits (c :: cs)) else none
  | [] => none

/-- Reads one or more digits behind what was read before. -/
def readSome (before cs : List Char) : Option (List Char × List Char) :=
  let (digits, rest) := readDigits cs
  if digits.isEmpty then none else some (before ++ digits, rest)

/-- Reads a fraction, if there is one. -/
def readFraction : List Char → Option (List Char × List Char)
  | '.' :: cs => readSome ['.'] cs
  | cs => some ([], cs)

/-- Reads an exponent, if there is one. -/
def readExponent : List Char → Option (List Char × List Char)
  | c :: s :: cs =>
    if c = 'e' ∨ c = 'E' then
      if s = '+' ∨ s = '-' then readSome [c, s] cs else readSome [c] (s :: cs)
    else some ([], c :: s :: cs)
  | [c] => if c = 'e' ∨ c = 'E' then none else some ([], [c])
  | [] => some ([], [])

def readNumber (cs : List Char) : Option (List Char × List Char) := do
  let (sign, cs) : List Char × List Char := match cs with
    | '-' :: cs => (['-'], cs)
    | cs => ([], cs)
  let (whole, cs) ← readWhole cs
  let (fraction, cs) ← readFraction cs
  let (exponent, cs) ← readExponent cs
  return (sign ++ whole ++ fraction ++ exponent, cs)

/-! ## Words -/

/-- A character that may stand between words. -/
def isBlank (c : Char) : Bool := c == ' ' || c == '\n' || c == '\t' || c == '\r'

/-- Reads one word. -/
def readToken : List Char → Option (Token × List Char)
  | [] => none
  | '\x7b' :: cs => some (.objectOpen, cs)
  | '\x7d' :: cs => some (.objectClose, cs)
  | '[' :: cs => some (.arrayOpen, cs)
  | ']' :: cs => some (.arrayClose, cs)
  | ':' :: cs => some (.colon, cs)
  | ',' :: cs => some (.comma, cs)
  | '"' :: cs => (readText cs).map fun (pieces, cs) => (.text pieces, cs)
  | 'n' :: 'u' :: 'l' :: 'l' :: cs => some (.null, cs)
  | 't' :: 'r' :: 'u' :: 'e' :: cs => some (.bool true, cs)
  | 'f' :: 'a' :: 'l' :: 's' :: 'e' :: cs => some (.bool false, cs)
  | c :: cs => (readNumber (c :: cs)).map fun (spelling, cs) => (.number spelling, cs)

/-! ## Reading goes on -/

theorem length_of_readText {cs rest : List Char} {ps : List Piece}
    (h : readText cs = some (ps, rest)) : rest.length < cs.length := by
  fun_induction readText cs generalizing ps with
  | case1 | case5 => simp at h
  | case2 => simp_all
  | case3 a b c d cs ih =>
    simp only [bind, Option.bind_eq_some_iff, pure, Option.some.injEq] at h
    obtain ⟨u, -, ⟨qs, tail⟩, hr, he⟩ := h
    cases he
    have : tail.length < cs.length := ih hr
    simp only [List.length_cons]
    omega
  | case4 e cs _ ih =>
    simp only [bind, Option.bind_eq_some_iff, pure, Option.some.injEq] at h
    obtain ⟨c, -, ⟨qs, tail⟩, hr, he⟩ := h
    cases he
    have : tail.length < cs.length := ih hr
    simp only [List.length_cons]
    omega
  | case6 c cs _ _ _ _ ih =>
    simp only [bind, Option.bind_eq_some_iff, pure, Option.some.injEq] at h
    obtain ⟨⟨qs, tail⟩, hr, he⟩ := h
    cases he
    have : tail.length < cs.length := ih hr
    simp only [List.length_cons]
    omega

theorem readDigits_append (cs : List Char) : (readDigits cs).1 ++ (readDigits cs).2 = cs :=
  List.takeWhile_append_dropWhile

theorem readSome_append {before cs spelling rest : List Char}
    (h : readSome before cs = some (spelling, rest)) : spelling ++ rest = before ++ cs := by
  simp only [readSome] at h
  split at h
  · simp at h
  · simp only [Option.some.injEq, Prod.mk.injEq] at h
    rw [← h.1, ← h.2, List.append_assoc, readDigits_append]

theorem readWhole_append {cs spelling rest : List Char}
    (h : readWhole cs = some (spelling, rest)) : spelling ++ rest = cs ∧ spelling ≠ [] := by
  unfold readWhole at h
  split at h
  · simp only [Option.some.injEq, Prod.mk.injEq] at h
    simp [← h.1, h.2]
  · next c cs _ =>
    split at h
    · next hc =>
      simp only [Option.some.injEq] at h
      have := readDigits_append (c :: cs)
      rw [h] at this
      refine ⟨this, ?_⟩
      have hs : spelling = (readDigits (c :: cs)).1 := by rw [h]
      simp [hs, readDigits, hc]
    · simp at h
  · simp at h

theorem readFraction_append {cs spelling rest : List Char}
    (h : readFraction cs = some (spelling, rest)) : spelling ++ rest = cs := by
  unfold readFraction at h
  split at h
  · simpa using readSome_append h
  · simp_all

theorem readExponent_append {cs spelling rest : List Char}
    (h : readExponent cs = some (spelling, rest)) : spelling ++ rest = cs := by
  unfold readExponent at h
  split at h
  · split at h
    · split at h <;> simpa using readSome_append h
    · simp_all
  · split at h
    · simp at h
    · simp_all
  · simp_all

/-- A number is read from the front, and nothing is lost. -/
theorem readNumber_append {cs spelling rest : List Char}
    (h : readNumber cs = some (spelling, rest)) : spelling ++ rest = cs ∧ spelling ≠ [] := by
  simp only [readNumber, bind, Option.bind_eq_some_iff, pure, Option.some.injEq] at h
  obtain ⟨⟨w, cs₁⟩, hw, ⟨f, cs₂⟩, hf, ⟨e, cs₃⟩, he, hs⟩ := h
  cases hs
  have hw := readWhole_append hw
  have hf := readFraction_append hf
  have he := readExponent_append he
  constructor
  · rw [List.append_assoc, List.append_assoc, List.append_assoc, he, hf, hw.1]
    split <;> rfl
  · simp [hw.2]

/-- A word takes at least one character. -/
theorem length_of_readToken {cs rest : List Char} {t : Token}
    (h : readToken cs = some (t, rest)) : rest.length < cs.length := by
  unfold readToken at h
  split at h
  case h_8 =>
    simp only [Option.map_eq_some_iff] at h
    obtain ⟨⟨ps, tail⟩, hr, he⟩ := h
    cases he
    have := length_of_readText hr
    simp only [List.length_cons]
    omega
  case h_12 c cs _ _ _ _ _ _ _ _ _ _ =>
    simp only [Option.map_eq_some_iff] at h
    obtain ⟨⟨s, tail⟩, hr, he⟩ := h
    cases he
    obtain ⟨ha, hn⟩ := readNumber_append hr
    rw [← ha, List.length_append]
    have := List.length_pos_iff.mpr hn
    simp only
    omega
  all_goals first
    | (simp at h; done)
    | (simp only [Option.some.injEq, Prod.mk.injEq] at h
       simp only [← h.2, List.length_cons]
       omega)

/-- Reads a text word by word. -/
def scan? (cs : List Char) : Option (List Token) :=
  match cs with
  | [] => some []
  | c :: cs =>
    if isBlank c then scan? cs
    else
      match _h : readToken (c :: cs) with
      | some (t, rest) => (scan? rest).map (t :: ·)
      | none => none
termination_by cs.length
decreasing_by
  · simp
  · exact length_of_readToken _h

end LeaseLock.Json
