import LeaseLock.Url.Form
import Mathlib.Tactic.Common

/-!
# Reading what was percent-encoded

**Bytes** (`bytes`). A character of ASCII is one byte, and no byte of any other character is one of
ASCII. So marks and digits can be told from the bytes.

**Escapes** (`escape?`, `hasStray`). A percent sign with two digits behind it stands for a byte. A
stray one, which no two digits follow, stands for itself, or is refused. Decoding makes a text
shorter if there is an escape in it, and leaves it as it is otherwise (`decodedBytes_shrinks`).

**Encoding** leaves escapes alone, and what it encodes is decoded again: an encoded text is read as
the text itself would be (`decodedBytes_encoded`).

**Forms.** What is written into a form is read as it was (`formPairs?_pair`).
-/

namespace LeaseLock.Url

variable {b high low : UInt8} {bs : List UInt8} {c d : Char} {cs : List Char} {plain : Char → Bool}

/-! ## Bytes of characters -/

@[simp] theorem bytes_nil : bytes [] = [] := rfl

@[simp] theorem bytes_cons (c : Char) (cs : List Char) :
    bytes (c :: cs) = String.utf8EncodeChar c ++ bytes cs := rfl

@[simp] theorem bytes_append (cs ds : List Char) : bytes (cs ++ ds) = bytes cs ++ bytes ds :=
  List.flatMap_append

theorem utf8EncodeChar_of_ascii (h : c.toNat < 128) :
    String.utf8EncodeChar c = [UInt8.ofNat c.toNat] :=
  if_pos (Nat.le_of_lt_succ h)

/-- No byte of another character is one of ASCII. -/
theorem le_of_mem_utf8EncodeChar (h : 128 ≤ c.toNat) (hb : b ∈ String.utf8EncodeChar c) :
    128 ≤ b.toNat := by
  have hc : ¬c.val.toNat ≤ 0x7f := Nat.not_le.2 h
  unfold String.utf8EncodeChar at hb
  simp only [if_neg hc] at hb
  split at hb
  · simp only [List.mem_cons, List.not_mem_nil, or_false] at hb
    rcases hb with rfl | rfl <;> simp <;> omega
  · split at hb
    · simp only [List.mem_cons, List.not_mem_nil, or_false] at hb
      rcases hb with rfl | rfl | rfl <;> simp <;> omega
    · simp only [List.mem_cons, List.not_mem_nil, or_false] at hb
      rcases hb with rfl | rfl | rfl | rfl <;> simp <;> omega

theorem toNat_of_mem_utf8EncodeChar (h : b.toNat < 128) (hb : b ∈ String.utf8EncodeChar c) :
    c.toNat = b.toNat := by
  by_cases hc : c.toNat < 128
  · rw [utf8EncodeChar_of_ascii hc, List.mem_singleton] at hb
    subst hb
    simp
    omega
  · exact absurd (le_of_mem_utf8EncodeChar (Nat.not_lt.1 hc) hb) (Nat.not_le.2 h)

theorem bytes_injective : Function.Injective bytes := by
  intro cs ds h
  have henc : cs.utf8Encode = ds.utf8Encode := List.toByteArray_inj.2 h
  rw [← String.toByteArray_ofList, ← String.toByteArray_ofList, String.toByteArray_inj] at henc
  exact String.ofList_injective henc

theorem fromUTF8?_bytes (s : String) : String.fromUTF8? ⟨(bytes s.toList).toArray⟩ = some s := by
  have harray : (⟨(bytes s.toList).toArray⟩ : ByteArray) = s.toByteArray := by
    rw [← String.ofList_toList (s := s), String.toByteArray_ofList, String.toList_ofList]
    exact ByteArray.ext List.data_toByteArray.symm
  rw [harray]
  exact dif_pos s.isValidUTF8

/-! ## Percent signs and what follows them -/

/-- The byte stands for a hexadecimal digit. -/
def isDigitByte (b : UInt8) : Bool := (Text.Hexadecimal.digit? (Char.ofNat b.toNat)).isSome

/-- The byte that the first two bytes stand for, if they are digits. -/
def escape? : List UInt8 → Option UInt8
  | high :: low :: _ => byteOf? high low
  | _ => none

/-- A percent sign is not followed by two digits. -/
def hasStray : List UInt8 → Bool
  | [] => false
  | b :: bs => b == 0x25 && (escape? bs).isNone || hasStray bs

theorem isDigitByte_of_byteOf? (h : byteOf? high low = some b) :
    isDigitByte high = true ∧ isDigitByte low = true := by
  simp only [byteOf?, Option.bind_eq_bind, Option.bind_eq_some_iff] at h
  obtain ⟨x, hx, y, hy, -⟩ := h
  exact ⟨Option.isSome_of_eq_some hx, Option.isSome_of_eq_some hy⟩

theorem escape?_eq_none (h : ∀ b ∈ bs.head?, isDigitByte b = false) : escape? bs = none := by
  match bs, h with
  | high :: low :: bs, h =>
    refine Option.eq_none_iff_forall_ne_some.2 fun b hb => ?_
    have hdigit := (isDigitByte_of_byteOf? hb).1
    rw [h high rfl] at hdigit
    cases hdigit
  | [], _ => rfl
  | [_], _ => rfl

theorem escape?_cons_eq_none (h : ∀ b ∈ bs.head?, isDigitByte b = false) (b : UInt8) :
    escape? (b :: bs) = none := by
  match bs, h with
  | low :: bs, h =>
    refine Option.eq_none_iff_forall_ne_some.2 fun b' hb => ?_
    have hdigit := (isDigitByte_of_byteOf? hb).2
    rw [h low rfl] at hdigit
    cases hdigit
  | [], _ => rfl

theorem decodedBytes_cons (h : b ≠ 0x25) : decodedBytes (b :: bs) = b :: decodedBytes bs := by
  rw [decodedBytes]
  rintro high low bs rfl
  exact absurd rfl h

theorem decodedBytes_escape (h : byteOf? high low = some b) :
    decodedBytes (0x25 :: high :: low :: bs) = b :: decodedBytes bs := by
  simp [decodedBytes, h]

theorem decodedBytes_stray (h : escape? bs = none) :
    decodedBytes (0x25 :: bs) = 0x25 :: decodedBytes bs := by
  match bs, h with
  | high :: low :: bs, h =>
    have h : byteOf? high low = none := h
    simp [decodedBytes, h]
  | [], _ => rfl
  | [_], _ => rfl

theorem hasStray_cons (h : b ≠ 0x25) : hasStray (b :: bs) = hasStray bs := by
  rw [hasStray, beq_false_of_ne h, Bool.false_and, Bool.false_or]

theorem hasStray_escape (h : byteOf? high low = some b) :
    hasStray (0x25 :: high :: low :: bs) = hasStray bs := by
  obtain ⟨hhigh, hlow⟩ := isDigitByte_of_byteOf? h
  have hne {b : UInt8} (hb : isDigitByte b = true) : b ≠ 0x25 := by
    rintro rfl
    exact absurd hb (by decide)
  have hescape : escape? (high :: low :: bs) = some b := h
  rw [hasStray, hescape, hasStray_cons (hne hhigh), hasStray_cons (hne hlow)]
  rfl

/-- Bytes without percent signs stand for themselves. -/
theorem decodedBytes_append {xs : List UInt8} (h : 0x25 ∉ xs) (bs : List UInt8) :
    decodedBytes (xs ++ bs) = xs ++ decodedBytes bs := by
  induction xs with
  | nil => rfl
  | cons x xs ih =>
    rw [List.mem_cons, not_or] at h
    rw [List.cons_append, decodedBytes_cons (Ne.symm h.1), ih h.2, List.cons_append]

theorem hasStray_append {xs : List UInt8} (h : 0x25 ∉ xs) (bs : List UInt8) :
    hasStray (xs ++ bs) = hasStray bs := by
  induction xs with
  | nil => rfl
  | cons x xs ih =>
    rw [List.mem_cons, not_or] at h
    rw [List.cons_append, hasStray_cons (Ne.symm h.1), ih h.2]

/-- Decoding never makes a text longer, and one of the same length is the same. -/
theorem decodedBytes_shrinks (bs : List UInt8) : (decodedBytes bs).length ≤ bs.length ∧
    ((decodedBytes bs).length = bs.length → decodedBytes bs = bs) := by
  fun_induction decodedBytes bs with
  | case1 high low bs b h ih => simp; omega
  | case2 high low bs h ih => simpa using ih
  | case3 b bs h ih => simpa using ih
  | case4 => simp

/-- What stands on the two sides of a slash is decoded apart. -/
theorem decodedBytes_append_slash (xs ys : List UInt8) :
    decodedBytes (xs ++ 0x2F :: ys) = decodedBytes xs ++ 0x2F :: decodedBytes ys := by
  have hslash : ∀ b ∈ (0x2F :: ys).head?, isDigitByte b = false := by
    rintro b ⟨⟩
    decide
  fun_induction decodedBytes xs with
  | case1 high low bs b h ih => exact (decodedBytes_escape h).trans (congrArg (b :: ·) ih)
  | case2 high low bs h ih =>
    have hescape : escape? (high :: low :: bs ++ 0x2F :: ys) = none := h
    exact (decodedBytes_stray hescape).trans (congrArg (0x25 :: ·) ih)
  | case3 b bs h ih =>
    rw [List.cons_append]
    by_cases hb : b = 0x25
    · subst hb
      have hescape : escape? (bs ++ 0x2F :: ys) = none := by
        match bs, h with
        | [], _ => exact escape?_eq_none hslash
        | [b], _ => exact escape?_cons_eq_none hslash b
        | high :: low :: bs, h => exact absurd rfl (h high low bs rfl)
      rw [decodedBytes_stray hescape, ih, List.cons_append]
    · rw [decodedBytes_cons hb, ih, List.cons_append]
  | case4 => exact decodedBytes_cons (by decide)

/-! ## Encoded texts -/

theorem percent_not_mem_utf8EncodeChar (h : c ≠ '%') : 0x25 ∉ String.utf8EncodeChar c := by
  intro hb
  have hc : c.toNat = '%'.toNat := toNat_of_mem_utf8EncodeChar (by decide) hb
  exact h (Char.toNat_inj.1 hc)

theorem digit_of_lt : ∀ n < 16,
    let digit := (Nat.digitChar n).toUpper
    String.utf8EncodeChar digit = [UInt8.ofNat digit.toNat] ∧
      Text.Hexadecimal.digit? (Char.ofNat (UInt8.ofNat digit.toNat).toNat) = some n := by
  decide

/-- An encoded byte is a percent sign with two digits that stand for it. -/
theorem bytes_encodedByte (b : UInt8) :
    ∃ high low, bytes (encodedByte b) = [0x25, high, low] ∧ byteOf? high low = some b := by
  have hb : b.toNat < 256 := b.toNat_lt
  obtain ⟨hhigh, hhigh'⟩ := digit_of_lt (b.toNat / 16) (by omega)
  obtain ⟨hlow, hlow'⟩ := digit_of_lt (b.toNat % 16) (by omega)
  refine ⟨UInt8.ofNat (Nat.digitChar (b.toNat / 16)).toUpper.toNat,
    UInt8.ofNat (Nat.digitChar (b.toNat % 16)).toUpper.toNat, ?_, ?_⟩
  · unfold encodedByte
    rw [bytes_cons, bytes_cons, bytes_cons, hhigh, hlow]
    rfl
  · unfold byteOf?
    rw [hhigh', hlow']
    show some (UInt8.ofNat (b.toNat / 16 * 16 + b.toNat % 16)) = some b
    rw [Nat.div_add_mod', UInt8.ofNat_toNat]

theorem decodedBytes_encodedBytes (xs bs : List UInt8) :
    decodedBytes (bytes (xs.flatMap encodedByte) ++ bs) = xs ++ decodedBytes bs := by
  induction xs with
  | nil => rfl
  | cons x xs ih =>
    obtain ⟨high, low, henc, hx⟩ := bytes_encodedByte x
    rw [List.flatMap_cons, bytes_append, henc, List.append_assoc]
    exact (decodedBytes_escape hx).trans (congrArg (x :: ·) ih)

theorem hasStray_encodedBytes (xs bs : List UInt8) :
    hasStray (bytes (xs.flatMap encodedByte) ++ bs) = hasStray bs := by
  induction xs with
  | nil => rfl
  | cons x xs ih =>
    obtain ⟨high, low, henc, hx⟩ := bytes_encodedByte x
    rw [List.flatMap_cons, bytes_append, henc, List.append_assoc]
    exact (hasStray_escape hx).trans ih

/-- Percent signs and digits stand for themselves. -/
def KeepsEscapes (plain : Char → Bool) : Prop :=
  ∀ c, c = '%' ∨ (Text.Hexadecimal.digit? c).isSome = true → plain c = true

theorem encoded_cons (c : Char) (cs : List Char) : encoded plain (c :: cs) =
    (if plain c then [c] else encodedChar c) ++ encoded plain cs := rfl

/-- A byte that is a digit comes from a digit of ASCII. -/
theorem digit_of_mem_utf8EncodeChar (hb : b ∈ String.utf8EncodeChar c)
    (hdigit : isDigitByte b = true) :
    c.toNat < 128 ∧ (Text.Hexadecimal.digit? c).isSome = true := by
  have hlt : b.toNat < 128 := by
    have hascii : ∀ n < 256, (Text.Hexadecimal.digit? (Char.ofNat n)).isSome = true → n < 128 := by
      decide +kernel
    exact hascii b.toNat b.toNat_lt hdigit
  have hc : c.toNat = b.toNat := toNat_of_mem_utf8EncodeChar hlt hb
  refine ⟨hc ▸ hlt, ?_⟩
  rw [← Char.ofNat_toNat c, hc]
  exact hdigit

/-- Encoding leaves a digit at the front alone, and puts none there. -/
theorem front_of_encoded (hplain : KeepsEscapes plain) (c : Char) (cs : List Char) :
    (∃ b, bytes (c :: cs) = b :: bytes cs ∧
      bytes (encoded plain (c :: cs)) = b :: bytes (encoded plain cs)) ∨
    (∀ b ∈ (bytes (c :: cs)).head?, isDigitByte b = false) ∧
      ∀ b ∈ (bytes (encoded plain (c :: cs))).head?, isDigitByte b = false := by
  obtain ⟨x, xs, hx⟩ := List.exists_cons_of_ne_nil (String.utf8EncodeChar_ne_nil (c := c))
  have hmem : x ∈ String.utf8EncodeChar c := hx ▸ List.mem_cons_self
  cases hdigit : isDigitByte x with
  | true =>
    obtain ⟨hascii, hc⟩ := digit_of_mem_utf8EncodeChar hmem hdigit
    refine .inl ⟨UInt8.ofNat c.toNat, ?_, ?_⟩
    · rw [bytes_cons, utf8EncodeChar_of_ascii hascii]
      rfl
    · rw [encoded_cons, if_pos (hplain c (.inr hc)), bytes_append, bytes_cons,
        utf8EncodeChar_of_ascii hascii]
      rfl
  | false =>
    refine .inr ⟨?_, ?_⟩
    · rw [bytes_cons, hx]
      rintro b ⟨⟩
      exact hdigit
    · rw [encoded_cons, bytes_append]
      split
      · rw [bytes_cons, hx]
        rintro b ⟨⟩
        exact hdigit
      · obtain ⟨high, low, henc, -⟩ := bytes_encodedByte x
        rw [encodedChar, hx, List.flatMap_cons, bytes_append, henc]
        rintro b ⟨⟩
        decide

/-- What stands behind a percent sign is two bytes that encoding leaves alone, or is no escape, in
the text as in the encoded one. -/
theorem escape_of_encoded (hplain : KeepsEscapes plain) (cs : List Char) :
    (∃ high low ds, ds.length < cs.length ∧ bytes cs = high :: low :: bytes ds ∧
      bytes (encoded plain cs) = high :: low :: bytes (encoded plain ds)) ∨
    escape? (bytes cs) = none ∧ escape? (bytes (encoded plain cs)) = none := by
  match cs with
  | [] => exact .inr ⟨rfl, rfl⟩
  | [c] =>
    right
    rcases front_of_encoded hplain c [] with ⟨b, hb, hb'⟩ | ⟨hb, hb'⟩
    · rw [hb, hb']
      exact ⟨rfl, rfl⟩
    · exact ⟨escape?_eq_none hb, escape?_eq_none hb'⟩
  | c :: d :: ds =>
    rcases front_of_encoded hplain c (d :: ds) with ⟨high, hc, hc'⟩ | ⟨hc, hc'⟩
    · rcases front_of_encoded hplain d ds with ⟨low, hd, hd'⟩ | ⟨hd, hd'⟩
      · refine .inl ⟨high, low, ds, by simp only [List.length_cons]; omega, ?_, ?_⟩
        · rw [hc, hd]
        · rw [hc', hd']
      · rw [hc, hc']
        exact .inr ⟨escape?_cons_eq_none hd high, escape?_cons_eq_none hd' high⟩
    · exact .inr ⟨escape?_eq_none hc, escape?_eq_none hc'⟩

theorem bytes_percent (cs : List Char) : bytes ('%' :: cs) = 0x25 :: bytes cs := rfl

theorem encoded_percent (hplain : KeepsEscapes plain) (cs : List Char) :
    encoded plain ('%' :: cs) = '%' :: encoded plain cs := by
  rw [encoded_cons, if_pos (hplain '%' (.inl rfl))]
  rfl

/-- **Encoding does not change what a text is read as.** -/
theorem decodedBytes_encoded (hplain : KeepsEscapes plain) (cs : List Char) :
    decodedBytes (bytes (encoded plain cs)) = decodedBytes (bytes cs) := by
  -- An escape takes up three characters at once, so the induction is on the length.
  induction hn : cs.length using Nat.strongRecOn generalizing cs with
  | ind n ih =>
    cases cs with
    | nil => rfl
    | cons c cs =>
      subst hn
      by_cases hc : c = '%'
      · subst hc
        rw [encoded_percent hplain, bytes_percent, bytes_percent]
        rcases escape_of_encoded hplain cs with ⟨high, low, ds, hlen, hcs, hcs'⟩ | ⟨hcs, hcs'⟩
        · have ih' := ih ds.length (by simp; omega) ds rfl
          cases hb : byteOf? high low with
          | some b => rw [hcs, hcs', decodedBytes_escape hb, decodedBytes_escape hb, ih']
          | none =>
            have hstray : escape? (bytes cs) = none := by rwa [hcs]
            have hstray' : escape? (bytes (encoded plain cs)) = none := by rwa [hcs']
            rw [decodedBytes_stray hstray, decodedBytes_stray hstray',
              ih cs.length (by simp) cs rfl]
        · rw [decodedBytes_stray hcs, decodedBytes_stray hcs', ih cs.length (by simp) cs rfl]
      · rw [encoded_cons, bytes_append, bytes_cons,
          decodedBytes_append (percent_not_mem_utf8EncodeChar hc), ← ih cs.length (by simp) cs rfl]
        split
        · rw [bytes_cons, bytes_nil, List.append_nil,
            decodedBytes_append (percent_not_mem_utf8EncodeChar hc)]
        · exact decodedBytes_encodedBytes _ _

theorem hasStray_encoded (hplain : KeepsEscapes plain) (cs : List Char) :
    hasStray (bytes (encoded plain cs)) = hasStray (bytes cs) := by
  induction cs with
  | nil => rfl
  | cons c cs ih =>
    by_cases hc : c = '%'
    · subst hc
      rw [encoded_percent hplain, bytes_percent, bytes_percent, hasStray, hasStray, ih]
      rcases escape_of_encoded hplain cs with ⟨high, low, ds, -, hcs, hcs'⟩ | ⟨hcs, hcs'⟩
      · rw [hcs, hcs']
        rfl
      · rw [hcs, hcs']
    · rw [encoded_cons, bytes_append, bytes_cons,
        hasStray_append (percent_not_mem_utf8EncodeChar hc), ← ih]
      split
      · rw [bytes_cons, bytes_nil, List.append_nil,
          hasStray_append (percent_not_mem_utf8EncodeChar hc)]
      · exact hasStray_encodedBytes _ _

theorem lt_of_digit? (h : (Text.Hexadecimal.digit? c).isSome = true) : c.toNat < 128 := by
  have hle {d : Char} (hd : c ≤ d) (hlt : d.toNat < 128) : c.toNat < 128 :=
    Nat.lt_of_le_of_lt hd hlt
  unfold Text.Hexadecimal.digit? at h
  split at h
  next hd =>
    simp only [Char.isDigit, Bool.and_eq_true, decide_eq_true_eq] at hd
    exact hle (d := '9') hd.2 (by decide)
  next =>
    split at h
    next hd => exact hle hd.2 (by decide)
    next =>
      split at h
      next hd => exact hle hd.2 (by decide)
      next => cases h

theorem keepsEscapes_inPath : KeepsEscapes inPath := by
  have hascii : ∀ n < 128, (Text.Hexadecimal.digit? (Char.ofNat n)).isSome = true →
      inPath (Char.ofNat n) = true := by
    decide +kernel
  rintro c (rfl | hc)
  · decide
  · rw [← Char.ofNat_toNat c] at hc ⊢
    exact hascii _ (lt_of_digit? (Char.ofNat_toNat c ▸ hc)) hc

/-! ## Forms -/

/-- A character as it is written in a form. -/
def formChar (c : Char) : List Char :=
  if c = ' ' then ['+'] else if inForm c then [c] else encodedChar c

/-- The plus sign read as the space that it stands for. -/
def spaced (c : Char) : Char := if c = '+' then ' ' else c

theorem toList_formEncoded (s : String) : (formEncoded s).toList = s.toList.flatMap formChar :=
  String.toList_ofList

theorem not_mark_of_mem_encodedByte (h : c ∈ encodedByte b) : c ≠ '&' ∧ c ≠ '=' ∧ c ≠ '+' := by
  have hdigit : ∀ n < 16, (Nat.digitChar n).toUpper ≠ '&' ∧ (Nat.digitChar n).toUpper ≠ '=' ∧
      (Nat.digitChar n).toUpper ≠ '+' := by decide
  have hb : b.toNat < 256 := b.toNat_lt
  simp only [encodedByte, List.mem_cons, List.not_mem_nil, or_false] at h
  rcases h with rfl | rfl | rfl
  · decide
  · exact hdigit _ (by omega)
  · exact hdigit _ (by omega)

theorem not_mark_of_inForm (h : inForm c = true) : c ≠ '&' ∧ c ≠ '=' ∧ c ≠ '+' ∧ c ≠ '%' := by
  refine ⟨?_, ?_, ?_, ?_⟩ <;> rintro rfl <;> revert h <;> decide

theorem not_mark_of_mem_formEncoded {s : String} (h : c ∈ (formEncoded s).toList) :
    c ≠ '&' ∧ c ≠ '=' := by
  rw [toList_formEncoded] at h
  obtain ⟨d, -, hd⟩ := List.mem_flatMap.1 h
  unfold formChar at hd
  split at hd
  · obtain rfl := List.mem_singleton.1 hd
    decide
  · split at hd
    next hform =>
      obtain rfl := List.mem_singleton.1 hd
      exact ⟨(not_mark_of_inForm hform).1, (not_mark_of_inForm hform).2.1⟩
    · obtain ⟨b, -, hb⟩ := List.mem_flatMap.1 hd
      exact ⟨(not_mark_of_mem_encodedByte hb).1, (not_mark_of_mem_encodedByte hb).2.1⟩

theorem decodedBytes_formChar (c : Char) (bs : List UInt8) :
    decodedBytes (bytes ((formChar c).map spaced) ++ bs) =
      String.utf8EncodeChar c ++ decodedBytes bs := by
  unfold formChar
  split
  next hc =>
    subst hc
    exact decodedBytes_cons (by decide)
  · split
    next hform =>
      obtain ⟨-, -, hplus, hpercent⟩ := not_mark_of_inForm hform
      rw [List.map_singleton, spaced, if_neg hplus, bytes_cons, bytes_nil, List.append_nil,
        decodedBytes_append (percent_not_mem_utf8EncodeChar hpercent)]
    · have hspaced : (encodedChar c).map spaced = encodedChar c := by
        rw [List.map_congr_left (g := id), List.map_id]
        intro d hd
        obtain ⟨b, -, hb⟩ := List.mem_flatMap.1 hd
        exact if_neg (not_mark_of_mem_encodedByte hb).2.2
      rw [hspaced]
      exact decodedBytes_encodedBytes _ _

/-- **A name or value of a form** is read as it was written. -/
theorem formDecoded?_formEncoded (s : String) :
    formDecoded? (formEncoded s).toList = some s := by
  have hdecoded (cs : List Char) :
      decodedBytes (bytes ((cs.flatMap formChar).map spaced)) = bytes cs := by
    induction cs with
    | nil => rfl
    | cons c cs ih =>
      rw [List.flatMap_cons, List.map_append, bytes_append, decodedBytes_formChar, ih]
      rfl
  show String.fromUTF8? ⟨(decodedBytes (bytes ((formEncoded s).toList.map spaced))).toArray⟩ = _
  rw [toList_formEncoded, hdecoded, fromUTF8?_bytes]

/-- **A pair of a form** is read as it was written. -/
theorem formPairs?_pair (name value : String) :
    formPairs? (formEncoded name ++ "=" ++ formEncoded value).toList = some [(name, value)] := by
  have hchars : (formEncoded name ++ "=" ++ formEncoded value).toList =
      (formEncoded name).toList ++ '=' :: (formEncoded value).toList := by
    simp [String.toList_append]
  have hpair : ∀ c ∈ (formEncoded name).toList ++ '=' :: (formEncoded value).toList,
      (c == '&') = false := by
    intro c hc
    rcases List.mem_append.1 hc with hc | hc
    · exact beq_false_of_ne (not_mark_of_mem_formEncoded hc).1
    · rcases List.mem_cons.1 hc with rfl | hc
      · rfl
      · exact beq_false_of_ne (not_mark_of_mem_formEncoded hc).1
  have hname : ∀ c ∈ (formEncoded name).toList, (c == '=') = false :=
    fun c hc => beq_false_of_ne (not_mark_of_mem_formEncoded hc).2
  rw [hchars, formPairs?, Text.pieces_of_forall hpair]
  simp [Text.cut_append hname, formDecoded?_formEncoded]

end LeaseLock.Url
