import RegionGuard.Table.Basic
import RegionGuard.Access.Basic
import RegionGuard.Address.Pointer

/-!
# Bounds checks

A pointer is checked against the bounds that govern its own address, so an
offset cannot carry it into another region.  Arithmetic that leaves the bounds
is no error and yields the invalid pointer; an access outside them is one.
Under a strict policy untracked memory is treated like forbidden memory.
-/

namespace RegionGuard

/-- What checks do with an address that nobody tracks. -/
inductive UntrackedPolicy
  /-- Every check passes. -/
  | permit
  /-- No check passes. -/
  | forbid
  deriving DecidableEq, Repr

namespace Table

/-- The bounds that govern an address under a policy. -/
def boundsUnder (t : Table) (addr : Addr) (policy : UntrackedPolicy) : Bounds × Table :=
  match t.lookup addr with
  | (bounds, t) =>
    if bounds = Bounds.untracked ∧ policy = .forbid then (Bounds.forbidden, t) else (bounds, t)

/-- Moves a pointer by an offset.  The result is invalid if it leaves the bounds
of the pointer; the address behind the last byte is still within them. -/
def advance (t : Table) (ptr : Pointer) (offset : Int32) (policy : UntrackedPolicy) :
    Pointer × Table :=
  match ptr with
  | .invalid => (.invalid, t)
  | .valid addr =>
    match t.boundsUnder addr policy with
    | (bounds, t) =>
      let delta := offset.toUInt32
      if bounds.size < bounds.distance addr + delta then (.invalid, t)
      else (.ofAddr (addr + delta), t)

/-- Checks that an access at an offset from a pointer lies within the bounds of
the pointer, and returns the address to access.  The last comparison is made on
unbounded numbers, so that the width cannot carry a large offset around. -/
def locate (t : Table) (ptr : Pointer) (offset : Int32) (width : Width)
    (policy : UntrackedPolicy) : Except Violation Addr × Table :=
  match ptr with
  | .invalid => (.error (.invalidAccess invalidAddr offset width.bytes), t)
  | .valid addr =>
    match t.boundsUnder addr policy with
    | (bounds, t) =>
      let delta := offset.toUInt32
      let first := bounds.distance addr + delta
      if bounds.size.toNat < first.toNat + width.bytes.toNat then
        (.error (.invalidAccess addr offset width.bytes), t)
      else (.ok (addr + delta), t)

end Table

end RegionGuard
