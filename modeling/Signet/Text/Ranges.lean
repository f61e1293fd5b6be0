/-! # Sets of characters given by ranges

A character class that no arithmetic rule describes is a table: a list of closed ranges of code
points in increasing order. This module reads such a table.
-/

namespace Signet.Text

/-- A table of closed ranges of code points. -/
abbrev Ranges := List (Nat × Nat)

/-- The character lies in one of the ranges. -/
def Ranges.has (table : Ranges) (c : Char) : Bool :=
  table.any fun range => range.1 ≤ c.toNat && c.toNat ≤ range.2

theorem Ranges.has_iff (table : Ranges) (c : Char) :
    table.has c = true ↔ ∃ range ∈ table, range.1 ≤ c.toNat ∧ c.toNat ≤ range.2 := by
  simp [Ranges.has]

end Signet.Text
