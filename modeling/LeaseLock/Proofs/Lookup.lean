import Mathlib.Tactic.Common

/-!
# Lists with keys

What is found under a key when entries are put before the others or taken out.
-/

namespace LeaseLock

variable {α β : Type} [DecidableEq α]

theorem lookup_cons_ite (m n : α) (c : β) (cs : List (α × β)) :
    ((n, c) :: cs).lookup m = if m = n then some c else cs.lookup m := by
  by_cases hm : m = n
  · simp [hm]
  · have hb : (m == n) = false := by simpa using hm
    rw [List.lookup_cons, hb, if_neg hm]

theorem lookup_filter_ne (m n : α) (cs : List (α × β)) :
    (cs.filter fun p => p.1 ≠ n).lookup m = if m = n then none else cs.lookup m := by
  induction cs with
  | nil => simp
  | cons p cs ih =>
    obtain ⟨k, c⟩ := p
    rw [List.filter_cons, lookup_cons_ite]
    by_cases hk : k = n
    · subst hk
      rw [if_neg (by simp), ih]
      by_cases hm : m = k <;> simp [hm]
    · rw [if_pos (by simpa using hk), lookup_cons_ite, ih]
      by_cases hm : m = k
      · subst hm
        simp [hk]
      · simp [hm]

end LeaseLock
