/-!
# Words within texts

**The test** (`occurs`). A word occurs in a text if its characters stand there one after another.
-/

namespace LeaseLock.Text

/-- The word stands somewhere in the characters. -/
def occursIn (word : List Char) : List Char → Bool
  | [] => word.isEmpty
  | c :: cs => word.isPrefixOf (c :: cs) || occursIn word cs

/-- The word stands somewhere in the text. -/
def occurs (word text : String) : Bool := occursIn word.toList text.toList

/-- The test decides the infix relation of lists. -/
theorem occursIn_iff {word cs : List Char} : occursIn word cs = true ↔ word <:+: cs := by
  induction cs with
  | nil => simp [occursIn, List.isEmpty_iff]
  | cons c cs ih =>
    rw [occursIn, Bool.or_eq_true, ih, List.isPrefixOf_iff_prefix, List.infix_cons_iff]

end LeaseLock.Text
