import LeaseLock.Text.Base64
import Mathlib.Algebra.Group.Nat.Defs
import Mathlib.Tactic.Common

/-!
# The standard form of base 64

**The standard** (`standard`). The bits of the bytes, highest first, are cut into groups of six, and
zeros fill the last group. Each group is a letter of the alphabet, and equals signs fill the letters
up to a multiple of four.

**Writing** gives this form (`encode_eq_standard`), and **reading** accepts nothing else
(`decode_eq_some_iff`): each row of bytes has one form.

Main result: `decodeText_eq_some_iff`.
-/

namespace LeaseLock.Text.Base64

variable {bytes : List UInt8} {cs : List Char} {s t : String}

/-! ## The standard -/

/-- The bits of a byte, highest first. -/
def bitsOfByte (b : UInt8) : List Nat :=
  [7, 6, 5, 4, 3, 2, 1, 0].map fun i => b.toNat / 2 ^ i % 2

/-- The number that bits stand for, highest first. -/
def number (bits : List Nat) : Nat := bits.foldl (2 * · + ·) 0

/-- The numbers of the groups of six; zeros fill the last group. -/
def sextets : List Nat → List Nat
  | [] => []
  | a :: b :: c :: d :: e :: f :: bits => number [a, b, c, d, e, f] :: sextets bits
  | bits => [number (bits ++ List.replicate (6 - bits.length) 0)]

def alphabet : List Char :=
  "ABCDEFGHIJKLMNOPQRSTUVWXYZabcdefghijklmnopqrstuvwxyz0123456789+/".toList

/-- The letter at a place of the alphabet. -/
def letterAt (n : Nat) : Char := alphabet.getD n '='

/-- The letters, filled up to a multiple of four. -/
def filled (letters : List Char) : List Char :=
  letters ++ List.replicate ((4 - letters.length % 4) % 4) '='

/-- **The standard form.** -/
def standard (bytes : List UInt8) : List Char :=
  filled ((sextets (bytes.flatMap bitsOfByte)).map letterAt)

theorem letterAt_eq : ∀ n < 64, letterAt n = letter n := by decide

theorem filled_four (a b c d : Char) (letters : List Char) :
    filled (a :: b :: c :: d :: letters) = a :: b :: c :: d :: filled letters := by
  have hlength : (letters.length + 1 + 1 + 1 + 1) % 4 = letters.length % 4 := by omega
  simp only [filled, List.length_cons, hlength, List.cons_append]

/-! ## Writing -/

theorem sextets_three (a b c : UInt8) (bits : List Nat) :
    sextets (bitsOfByte a ++ (bitsOfByte b ++ (bitsOfByte c ++ bits))) =
      a.toNat / 4 :: (a.toNat % 4 * 16 + b.toNat / 16) :: (b.toNat % 16 * 4 + c.toNat / 64) ::
        c.toNat % 64 :: sextets bits := by
  have ha := a.toNat_lt
  have hb := b.toNat_lt
  have hc := c.toNat_lt
  simp only [bitsOfByte, List.map_cons, List.map_nil, List.cons_append, List.nil_append, sextets,
    number, List.foldl_cons, List.foldl_nil, List.cons.injEq, and_true]
  refine ⟨?_, ?_, ?_, ?_⟩ <;> omega

/-- Two bytes are two groups, and a third one with two zeros. -/
theorem sextets_two (a b : UInt8) : sextets (bitsOfByte a ++ bitsOfByte b) =
    [a.toNat / 4, a.toNat % 4 * 16 + b.toNat / 16, b.toNat % 16 * 4] := by
  have ha := a.toNat_lt
  have hb := b.toNat_lt
  simp only [bitsOfByte, List.map_cons, List.map_nil, List.cons_append, List.nil_append, sextets,
    number, List.foldl_cons, List.foldl_nil, List.length_cons, List.length_nil,
    List.replicate_succ, List.replicate_zero, List.cons.injEq, and_true]
  refine ⟨?_, ?_, ?_⟩ <;> omega

theorem sextets_one (a : UInt8) : sextets (bitsOfByte a) = [a.toNat / 4, a.toNat % 4 * 16] := by
  have ha := a.toNat_lt
  simp only [bitsOfByte, List.map_cons, List.map_nil, List.cons_append, List.nil_append, sextets,
    number, List.foldl_cons, List.foldl_nil, List.length_cons, List.length_nil,
    List.replicate_succ, List.replicate_zero, List.cons.injEq, and_true]
  refine ⟨?_, ?_⟩ <;> omega

/-- **Writing gives the standard form.** -/
theorem encode_eq_standard (bytes : List UInt8) : encode bytes = standard bytes := by
  fun_induction encode bytes with
  | case1 => rfl
  | case2 a =>
    have ha := a.toNat_lt
    rw [standard, List.flatMap_singleton, sextets_one, List.map_cons, List.map_cons, List.map_nil,
      letterAt_eq _ (by omega), letterAt_eq _ (by omega)]
    rfl
  | case3 a b =>
    have ha := a.toNat_lt
    have hb := b.toNat_lt
    rw [standard, List.flatMap_cons, List.flatMap_singleton, sextets_two, List.map_cons,
      List.map_cons, List.map_cons, List.map_nil, letterAt_eq _ (by omega),
      letterAt_eq _ (by omega), letterAt_eq _ (by omega)]
    rfl
  | case4 a b c bytes ih =>
    have ha := a.toNat_lt
    have hb := b.toNat_lt
    have hc := c.toNat_lt
    rw [standard, List.flatMap_cons, List.flatMap_cons, List.flatMap_cons, sextets_three,
      List.map_cons, List.map_cons, List.map_cons, List.map_cons, filled_four,
      letterAt_eq _ (by omega), letterAt_eq _ (by omega), letterAt_eq _ (by omega),
      letterAt_eq _ (by omega), ih, standard]

/-! ## Reading -/

theorem sixBits_letter : ∀ n < 64, sixBits (letter n) = some n := by decide

theorem letter_ne_equals : ∀ n < 64, letter n ≠ '=' := by decide

theorem eq_letter_of_sixBits {c : Char} {n : Nat} (h : sixBits c = some n) :
    n < 64 ∧ c = letter n := by
  have hrange {low high : Char} (hc : low ≤ c ∧ c ≤ high) :
      low.toNat ≤ c.toNat ∧ c.toNat ≤ high.toNat := by
    simpa [Char.le_def, UInt32.le_iff_toNat_le] using hc
  have hA : 'A'.toNat = 65 ∧ 'Z'.toNat = 90 := ⟨rfl, rfl⟩
  have ha : 'a'.toNat = 97 ∧ 'z'.toNat = 122 := ⟨rfl, rfl⟩
  have h0 : '0'.toNat = 48 ∧ '9'.toNat = 57 := ⟨rfl, rfl⟩
  unfold sixBits at h
  split at h
  next hc =>
    have hc := hrange hc
    obtain rfl := Option.some.inj h
    refine ⟨by omega, ?_⟩
    rw [letter, if_pos (by omega), Nat.add_sub_cancel' hc.1, Char.ofNat_toNat]
  split at h
  next hc =>
    have hc := hrange hc
    obtain rfl := Option.some.inj h
    refine ⟨by omega, ?_⟩
    rw [letter, if_neg (by omega), if_pos (by omega), Nat.add_sub_cancel,
      Nat.add_sub_cancel' hc.1, Char.ofNat_toNat]
  split at h
  next hc =>
    have hc := hrange hc
    obtain rfl := Option.some.inj h
    refine ⟨by omega, ?_⟩
    rw [letter, if_neg (by omega), if_neg (by omega), if_pos (by omega), Nat.add_sub_cancel,
      Nat.add_sub_cancel' hc.1, Char.ofNat_toNat]
  split at h
  next hc =>
    obtain rfl := Option.some.inj h
    exact ⟨by decide, hc⟩
  split at h
  next hc =>
    obtain rfl := Option.some.inj h
    exact ⟨by decide, hc⟩
  · cases h

theorem ofNat_toNat_byte {b : UInt8} {n : Nat} (h : n = b.toNat) : UInt8.ofNat n = b := by
  rw [h, UInt8.ofNat_toNat]

/-- **What was written is read.** -/
theorem decode_encode (bytes : List UInt8) : decode (encode bytes) = some bytes := by
  fun_induction encode bytes with
  | case1 => rfl
  | case2 a =>
    have ha := a.toNat_lt
    simp only [decode, sixBits_letter (a.toNat / 4) (by omega),
      sixBits_letter (a.toNat % 4 * 16) (by omega), bind, Option.bind_some]
    rw [if_pos (by omega), ofNat_toNat_byte (b := a) (by omega)]
  | case3 a b =>
    have ha := a.toNat_lt
    have hb := b.toNat_lt
    rw [decode]
    · simp only [sixBits_letter (a.toNat / 4) (by omega),
        sixBits_letter (a.toNat % 4 * 16 + b.toNat / 16) (by omega),
        sixBits_letter (b.toNat % 16 * 4) (by omega), bind, Option.bind_some]
      rw [if_pos (by omega), ofNat_toNat_byte (b := a) (by omega),
        ofNat_toNat_byte (b := b) (by omega)]
    · exact letter_ne_equals _ (by omega)
  | case4 a b c bytes ih =>
    have ha := a.toNat_lt
    have hb := b.toNat_lt
    have hc := c.toNat_lt
    rw [decode]
    · simp only [sixBits_letter (a.toNat / 4) (by omega),
        sixBits_letter (a.toNat % 4 * 16 + b.toNat / 16) (by omega),
        sixBits_letter (b.toNat % 16 * 4 + c.toNat / 64) (by omega),
        sixBits_letter (c.toNat % 64) (by omega), ih, bind, Option.bind_some, pure]
      rw [ofNat_toNat_byte (b := a) (by omega), ofNat_toNat_byte (b := b) (by omega),
        ofNat_toNat_byte (b := c) (by omega)]
    · exact fun h _ _ => letter_ne_equals _ (by omega) h
    · exact fun h _ => letter_ne_equals _ (by omega) h

/-- **Nothing else is read**: what is read is in the standard form. -/
theorem eq_encode_of_decode (h : decode cs = some bytes) : cs = encode bytes := by
  have byte {n : Nat} (hn : n < 256) : (UInt8.ofNat n).toNat = n := by
    simpa using Nat.mod_eq_of_lt hn
  fun_induction decode cs generalizing bytes with
  | case1 =>
    cases h
    rfl
  | case2 a b =>
    simp only [bind, Option.bind_eq_some_iff] at h
    obtain ⟨m, hm, n, hn, h⟩ := h
    split at h
    next hzero =>
      obtain ⟨hm, rfl⟩ := eq_letter_of_sixBits hm
      obtain ⟨hn, rfl⟩ := eq_letter_of_sixBits hn
      obtain rfl := Option.some.inj h
      have hfirst : (m * 4 + n / 16) / 4 = m := by omega
      have hlast : (m * 4 + n / 16) % 4 * 16 = n := by omega
      rw [encode, byte (by omega), hfirst, hlast]
    · cases h
  | case3 a b c hc =>
    simp only [bind, Option.bind_eq_some_iff] at h
    obtain ⟨m, hm, n, hn, k, hk, h⟩ := h
    split at h
    next hzero =>
      obtain ⟨hm, rfl⟩ := eq_letter_of_sixBits hm
      obtain ⟨hn, rfl⟩ := eq_letter_of_sixBits hn
      obtain ⟨hk, rfl⟩ := eq_letter_of_sixBits hk
      obtain rfl := Option.some.inj h
      have hfirst : (m * 4 + n / 16) / 4 = m := by omega
      have hsecond : (m * 4 + n / 16) % 4 * 16 + (n % 16 * 16 + k / 4) / 16 = n := by omega
      have hlast : (n % 16 * 16 + k / 4) % 16 * 4 = k := by omega
      rw [encode, byte (by omega), byte (by omega), hfirst, hsecond, hlast]
    · cases h
  | case4 a b c d cs _ _ ih =>
    simp only [bind, Option.bind_eq_some_iff, pure, Option.some.injEq] at h
    obtain ⟨m, hm, n, hn, k, hk, l, hl, rest, hrest, rfl⟩ := h
    obtain ⟨hm, rfl⟩ := eq_letter_of_sixBits hm
    obtain ⟨hn, rfl⟩ := eq_letter_of_sixBits hn
    obtain ⟨hk, rfl⟩ := eq_letter_of_sixBits hk
    obtain ⟨hl, rfl⟩ := eq_letter_of_sixBits hl
    have hfirst : (m * 4 + n / 16) / 4 = m := by omega
    have hsecond : (m * 4 + n / 16) % 4 * 16 + (n % 16 * 16 + k / 4) / 16 = n := by omega
    have hthird : (n % 16 * 16 + k / 4) % 16 * 4 + (k % 4 * 64 + l) / 64 = k := by omega
    have hlast : (k % 4 * 64 + l) % 64 = l := by omega
    rw [encode, byte (by omega), byte (by omega), byte (by omega), hfirst, hsecond, hthird, hlast,
      ← ih hrest]
  | case5 => cases h

theorem decode_eq_some_iff : decode cs = some bytes ↔ cs = encode bytes :=
  ⟨eq_encode_of_decode, fun h => h ▸ decode_encode bytes⟩

/-! ## Texts -/

/-- The bytes of a text in UTF-8. -/
def utf8 (s : String) : List UInt8 := s.toUTF8.data.toList

theorem fromUTF8?_eq_some_iff : String.fromUTF8? ⟨bytes.toArray⟩ = some s ↔ bytes = utf8 s := by
  unfold String.fromUTF8? utf8
  constructor
  · intro h
    split at h
    · cases h
      rfl
    · cases h
  · rintro rfl
    exact dif_pos s.isValidUTF8

/-- **A text is read exactly from the standard form of its bytes.** -/
theorem decodeText_eq_some_iff :
    decodeText s = some t ↔ s = String.ofList (standard (utf8 t)) := by
  unfold decodeText
  rw [Option.bind_eq_some_iff, ← encode_eq_standard]
  constructor
  · rintro ⟨bytes, hbytes, ht⟩
    rw [← fromUTF8?_eq_some_iff.1 ht, ← decode_eq_some_iff.1 hbytes, String.ofList_toList]
  · rintro rfl
    exact ⟨utf8 t, decode_eq_some_iff.2 String.toList_ofList, fromUTF8?_eq_some_iff.2 rfl⟩

end LeaseLock.Text.Base64
