/-!
# How deep a pattern is nested

A part of a pattern that holds other parts lies one level above the deepest of
them.  Parts that follow one another, the branches of an alternative and the
members of a set share one rule: two or more of them make a level of their own,
while a single one stands for itself.
-/

namespace RegionGuard.Log.Pattern

/-- The greatest depth that a pattern may have. -/
def depthLimit : Nat := 250

/-- Parts side by side, of which only their number and the depth of the deepest one
matter. -/
structure Parts where
  /-- How many parts there are. -/
  count : Nat
  /-- The depth of the deepest part. -/
  deepest : Nat
  deriving DecidableEq, Repr

namespace Parts

/-- No parts. -/
def none : Parts := ⟨0, 0⟩

/-- The parts with one more of the given depth. -/
def push (parts : Parts) (depth : Nat) : Parts :=
  ⟨parts.count + 1, max parts.deepest depth⟩

/-- The parts after one of them was put inside another that has the given depth. -/
def wrap (parts : Parts) (depth : Nat) : Parts :=
  ⟨parts.count, max parts.deepest depth⟩

/-- The depth of the parts together. -/
def depth (parts : Parts) : Nat :=
  if 2 ≤ parts.count then parts.deepest + 1 else parts.deepest

end Parts

end RegionGuard.Log.Pattern
