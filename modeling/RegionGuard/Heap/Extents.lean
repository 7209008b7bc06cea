import RegionGuard.Address.Slot

/-!
# Lists of extents

An extent is a piece of the heap.  A list of them is kept in ascending order of
the starts, with at most one extent for each start, so that two lists with the
same extents are equal.
-/

namespace RegionGuard

/-- A piece of the heap. -/
structure Extent where
  /-- Its first address. -/
  start : Addr
  /-- Its length in bytes. -/
  length : UInt32
  deriving DecidableEq, Repr

/-- The address behind an extent, as an unbounded number. -/
def Extent.stop (e : Extent) : Nat :=
  e.start.toNat + e.length.toNat

/-- Extents by ascending start. -/
abbrev Extents : Type := List Extent

namespace Extents

/-- Adds an extent, in the place of one with the same start. -/
def insert (extents : Extents) (e : Extent) : Extents :=
  match extents with
  | [] => [e]
  | x :: rest =>
    if e.start < x.start then e :: x :: rest
    else if e.start = x.start then e :: rest
    else x :: insert rest e

/-- The length of the extent with a given start. -/
def lengthAt? (extents : Extents) (start : Addr) : Option UInt32 :=
  (extents.find? (·.start == start)).map (·.length)

/-- Removes the extent with a given start. -/
def erase (extents : Extents) (start : Addr) : Extents :=
  List.filter (·.start != start) extents

/-- The last extent that starts before an address. -/
def before? (extents : Extents) (addr : Addr) : Option Extent :=
  (List.filter (·.start < addr) extents).getLast?

/-- The sum of the lengths. -/
def total (extents : Extents) : Nat :=
  extents.foldr (fun e sum => e.length.toNat + sum) 0

end Extents

end RegionGuard
