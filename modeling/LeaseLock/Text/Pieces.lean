/-!
# Pieces between separators

**Splitting** (`pieces`). A row of things falls apart at every separator; the pieces may be empty,
and there is always at least one.

**Cutting** (`cutAt`, `cut`). A row falls into two at its first separator, if there is one.
-/

namespace LeaseLock.Text

variable {α : Type}

/-- The pieces between separators. -/
def pieces (separates : α → Bool) : List α → List (List α)
  | [] => [[]]
  | x :: xs =>
    if separates x then [] :: pieces separates xs
    else match pieces separates xs with
      | piece :: rest => (x :: piece) :: rest
      | [] => [[x]]

/-- What stands before the first separator, and what stands behind it if there is one. -/
def cutAt (separates : α → Bool) : List α → List α × Option (List α)
  | [] => ([], none)
  | x :: xs =>
    if separates x then ([], some xs)
    else
      let (before, behind) := cutAt separates xs
      (x :: before, behind)

/-- What stands before the first separator, and what stands behind it, which may be nothing. -/
def cut (separates : α → Bool) (xs : List α) : List α × List α :=
  let (before, behind) := cutAt separates xs
  (before, behind.getD [])

variable {separates : α → Bool} {s : α} {xs : List α}

theorem pieces_ne_nil (separates : α → Bool) (xs : List α) : pieces separates xs ≠ [] := by
  cases xs with
  | nil => simp [pieces]
  | cons x xs => unfold pieces; split <;> (try split) <;> simp

/-- A row falls apart at each of its separators. -/
theorem pieces_append (hs : separates s = true) (xs ys : List α) :
    pieces separates (xs ++ s :: ys) = pieces separates xs ++ pieces separates ys := by
  induction xs with
  | nil => simp [pieces, hs]
  | cons x xs ih =>
    by_cases hx : separates x = true
    · simp [pieces, hx, ih]
    · obtain ⟨piece, rest, h⟩ := List.exists_cons_of_ne_nil (pieces_ne_nil separates xs)
      simp [pieces, hx, ih, h]

theorem pieces_of_forall (h : ∀ x ∈ xs, separates x = false) : pieces separates xs = [xs] := by
  induction xs with
  | nil => rfl
  | cons x xs ih =>
    rw [List.forall_mem_cons] at h
    simp [pieces, h.1, ih h.2]

theorem cut_append (h : ∀ x ∈ xs, separates x = false) (hs : separates s = true) (ys : List α) :
    cut separates (xs ++ s :: ys) = (xs, ys) := by
  have hcut : cutAt separates (xs ++ s :: ys) = (xs, some ys) := by
    induction xs with
    | nil => simp [cutAt, hs]
    | cons x xs ih =>
      rw [List.forall_mem_cons] at h
      simp [cutAt, h.1, ih h.2]
  rw [cut, hcut]
  rfl

end LeaseLock.Text
