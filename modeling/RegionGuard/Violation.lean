import RegionGuard.Address.Slot
import RegionGuard.Text.Hex

/-!
# Violations

A violation is a condition that the checker cannot continue from.  Operations
return it as a value with the addresses and sizes it is about; only the outer
layers decide how it is reported.
-/

namespace RegionGuard

/-- What a checked operation refused to do. -/
inductive Violation
  /-- An access outside every region, or across the end of one. -/
  | invalidAccess (addr : Addr) (offset : Int32) (width : UInt32)
  /-- A removal of an address at which no region starts. -/
  | invalidRemoval (addr : Addr)
  /-- A resizing of an address at which no region starts. -/
  | invalidResize (addr : Addr)
  /-- An access that is within bounds, at an address without memory. -/
  | unmapped (addr : Addr) (len : UInt32)
  /-- The table has no identifier left for its own bookkeeping. -/
  | metadataExhausted
  /-- A region whose end lies outside the address space. -/
  | regionOverflow (start : Addr) (size : UInt32)
  /-- A region at address 0. -/
  | nullRegion
  deriving DecidableEq, Repr

/-- The wording of each violation. -/
def Violation.message : Violation → String
  | .invalidAccess addr offset width =>
    s!"dereferencing invalid pointer {Text.hexAddr addr} " ++
      s!"(offset {offset.toInt}, {width.toNat} bytes)"
  | .invalidRemoval addr => s!"deleting invalid region {Text.hexAddr addr}"
  | .invalidResize addr => s!"realloc'ing invalid pointer {Text.hexAddr addr}"
  | .unmapped addr len =>
    s!"access to unmapped memory at {Text.hexAddr addr} ({len.toNat} bytes)"
  | .metadataExhausted => "not enough memory for bound checking code"
  | .regionOverflow start size =>
    s!"region {Text.hexAddr start} of {size.toNat} bytes wraps around the address space"
  | .nullRegion => "cannot register a region at address 0"

end RegionGuard
