/-
How deep a pattern nests.

A group, a class, a repetition and an operator each put a level around what they hold.  Things
that stand in a row need a level as well, but one thing by itself does not.
-/

namespace BlockingSync.Log.Pattern

/-- The greatest number of levels of a pattern. -/
def nestingLimit : Nat := 250

/-- Things in a row: how many there are, and the levels of the deepest. -/
structure Row where
  items : Nat := 0
  deepest : Nat := 0

namespace Row

/-- The row with one more thing of the given number of levels. -/
def push (r : Row) (levels : Nat) : Row :=
  { items := r.items + 1, deepest := max r.deepest levels }

/-- The row after a level was put around its last thing, which had the given number of levels. -/
def wrapLast (r : Row) (levels : Nat) : Row :=
  { r with deepest := max r.deepest (levels + 1) }

/-- The levels of a row. -/
def levels (r : Row) : Nat :=
  if r.items ≤ 1 then r.deepest else r.deepest + 1

end Row

end BlockingSync.Log.Pattern
