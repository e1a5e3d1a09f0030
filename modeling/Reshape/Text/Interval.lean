/-!
This module contains tables of code points, written as closed intervals, and the test whether a
character falls into one of them.
-/

namespace Reshape.Text

/--
A set of code points as a list of closed intervals, lowest first.
-/
abbrev Intervals := List (Nat × Nat)

/--
A character belongs to a table iff one of the intervals holds its code point.
-/
def Intervals.contains (table : Intervals) (c : Char) : Bool :=
  table.any fun (low, high) => decide (low ≤ c.toNat) && decide (c.toNat ≤ high)

theorem Intervals.contains_iff {table : Intervals} {c : Char} :
    table.contains c = true ↔ ∃ i ∈ table, i.1 ≤ c.toNat ∧ c.toNat ≤ i.2 := by
  simp [Intervals.contains]

end Reshape.Text
