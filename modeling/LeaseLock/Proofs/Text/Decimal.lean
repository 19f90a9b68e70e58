import LeaseLock.Text.Decimal
import Mathlib.Data.List.Basic

/-!
# Digits and their numbers

The digits that a number is written with stand for this number (`value?_toDigits`), and digits
without a needless zero at their front are the ones that their number is written with
(`toDigits_follow_zero`).
-/

namespace LeaseLock.Text.Decimal

/-- The number that digits stand for, behind another. -/
def follow (n : Nat) (cs : List Char) : Nat := cs.foldl (fun n c => 10 * n + digitValue c) n

theorem follow_append (n : Nat) (cs ds : List Char) :
    follow n (cs ++ ds) = follow (follow n cs) ds := List.foldl_append

theorem digitChar_digitValue {c : Char} (h : c.isDigit = true) :
    digitValue c < 10 ∧ Nat.digitChar (digitValue c) = c := by
  have hc : 48 ≤ c.toNat ∧ c.toNat ≤ 57 := by
    simpa [Char.isDigit, Char.le_def, UInt32.le_iff_toNat_le] using h
  refine ⟨show c.toNat - 48 < 10 by omega, Char.toNat_inj.1 ?_⟩
  show (Nat.digitChar (c.toNat - 48)).toNat = c.toNat
  rw [Nat.toNat_digitChar_of_lt_ten (by omega)]
  omega

theorem toDigits_follow (n : Nat) {c : Char} (hn : 0 < n) (hc : c.isDigit = true) :
    Nat.toDigits 10 (10 * n + digitValue c) = Nat.toDigits 10 n ++ [c] := by
  obtain ⟨hlt, hchar⟩ := digitChar_digitValue hc
  rw [← Nat.toDigits_append_toDigits (by decide) hn hlt, Nat.toDigits_of_lt_base hlt, hchar]

/-- Digits without a needless zero at the front are the digits of their number. -/
theorem toDigits_follow_zero {cs : List Char}
    (h : cs = ['0'] ∨ (cs ≠ [] ∧ ∀ c ∈ cs, c.isDigit = true) ∧ cs.head? ≠ some '0') :
    Nat.toDigits 10 (follow 0 cs) = cs := by
  rcases h with rfl | ⟨⟨hne, hall⟩, hzero⟩
  · decide
  obtain ⟨c, ds, rfl⟩ := List.exists_cons_of_ne_nil hne
  have hc := hall c List.mem_cons_self
  obtain ⟨hlt, hchar⟩ := digitChar_digitValue hc
  have hpos : 0 < digitValue c := by
    refine Nat.pos_of_ne_zero fun h => hzero ?_
    rw [List.head?_cons, ← hchar, h]
    rfl
  -- the number of the digits so far stays positive, so that each digit adds one at the end
  have go : ∀ ds : List Char, (∀ d ∈ ds, d.isDigit = true) → ∀ n, 0 < n →
      Nat.toDigits 10 (follow n ds) = Nat.toDigits 10 n ++ ds := by
    intro ds
    induction ds with
    | nil => exact fun _ n _ => (List.append_nil _).symm
    | cons d ds ih =>
      intro hds n hn
      have hd := hds d List.mem_cons_self
      show Nat.toDigits 10 (follow (10 * n + digitValue d) ds) = _
      rw [ih (fun d hd => hds d (List.mem_cons_of_mem _ hd)) _ (by omega), toDigits_follow n hn hd,
        List.append_assoc, List.singleton_append]
  have hfirst : follow 0 (c :: ds) = follow (digitValue c) ds := by simp [follow]
  rw [hfirst, go ds (fun d hd => hall d (List.mem_cons_of_mem _ hd)) _ hpos,
    Nat.toDigits_of_lt_base hlt, hchar, List.singleton_append]

theorem follow_toDigits (n : Nat) : follow 0 (Nat.toDigits 10 n) = n := by
  induction n using Nat.strongRecOn with
  | ind n ih =>
    have hdigit {d : Nat} (hd : d < 10) : digitValue (Nat.digitChar d) = d :=
      Nat.toNat_digitChar_sub_48_of_lt_ten hd
    by_cases hn : n < 10
    · rw [Nat.toDigits_of_lt_base hn]
      show 10 * 0 + digitValue (Nat.digitChar n) = n
      rw [hdigit hn]
      omega
    · rw [Nat.toDigits_of_base_le (by decide) (Nat.le_of_not_lt hn), follow_append,
        ih (n / 10) (by omega)]
      show 10 * (n / 10) + digitValue (Nat.digitChar (n % 10)) = n
      rw [hdigit (Nat.mod_lt n (by decide))]
      omega

theorem value?_toDigits (n : Nat) : value? (Nat.toDigits 10 n) = some n := by
  have hall : (Nat.toDigits 10 n).all Char.isDigit = true :=
    List.all_eq_true.2 fun c hc => Nat.isDigit_of_mem_toDigits (by decide) (by decide) hc
  rw [value?, if_pos ⟨Nat.toDigits_ne_nil, hall⟩]
  exact congrArg some (follow_toDigits n)

end LeaseLock.Text.Decimal
