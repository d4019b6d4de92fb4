/-!
# Tensor/Index — places counted from either end of an axis

An axis is addressed by machine words. A word in the lower half of its range counts from the start
of the axis; a word in the upper half stands for a negative number, and counts back from the end.
-/

namespace FieldFlow

/-- One more than the largest machine word. -/
def wordEnd : Nat := UInt64.size

/-- **Where a cut falls** on an axis — the number of entries in front of it, if the axis reaches
that far. -/
def cut? (length word : Nat) : Option Nat :=
  if 2 * word < wordEnd then if word ≤ length then some word else none
  else if word < wordEnd && wordEnd ≤ length + word then some (length + word - wordEnd)
  else none

/-- The entry that follows a cut; none follows the end of the axis. -/
def place? (length word : Nat) : Option Nat := (cut? length word).filter (· < length)

end FieldFlow
