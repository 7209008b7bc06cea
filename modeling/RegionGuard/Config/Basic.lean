import RegionGuard.Address.Zone
import RegionGuard.Table.Check

/-!
# Configuration

A configuration places the heap, names further zones that may never be
accessed, and says what happens at untracked memory and at a violation.
-/

namespace RegionGuard

/-- How a violation ends the operation that met it. -/
inductive ViolationPolicy
  /-- The program stops with status 1 after writing the diagnostic. -/
  | exit
  /-- The operation is broken off, and the program may go on. -/
  | interrupt
  deriving DecidableEq, Repr

/-- The end of an operation that met a violation. -/
inductive Abort
  /-- The program has stopped and written this diagnostic. -/
  | exit (diagnostic : String)
  /-- The operation was broken off with this message. -/
  | interrupt (message : String)
  deriving DecidableEq, Repr

/-- The diagnostic for a violation. -/
def Violation.diagnostic (v : Violation) : String :=
  s!"bounds check: {v.message}"

/-- Ends an operation that met a violation. -/
def ViolationPolicy.abort (policy : ViolationPolicy) (v : Violation) : Abort :=
  match policy with
  | .exit => .exit v.diagnostic
  | .interrupt => .interrupt v.diagnostic

/-- The settings of a checker. -/
structure Config where
  /-- What checks do with untracked memory. -/
  untracked : UntrackedPolicy
  /-- What happens at a violation. -/
  onViolation : ViolationPolicy
  /-- Where the heap lies. -/
  heap : Zone
  /-- Zones in which nothing may be accessed, apart from the heap. -/
  reserved : List Zone
  deriving DecidableEq, Repr

namespace Config

/-- The settings that hold unless something else is said. -/
def default : Config where
  untracked := .permit
  onViolation := .exit
  heap := ⟨0x10000000, 16 * 1024 * 1024⟩
  reserved := []

end Config

/-- Why a heap cannot be where a configuration puts it. -/
inductive PlacementError
  /-- The heap has no bytes. -/
  | emptyHeap
  /-- The heap does not start at a block. -/
  | unalignedHeap (start : Addr)
  /-- The heap stops behind the last address. -/
  | heapPastEnd (heap : Zone)
  /-- The heap and the zone of the invalid pointer overlap. -/
  | heapOverGuardZone (heap : Zone)
  /-- The heap and a reserved zone overlap. -/
  | reservedOverHeap (zone heap : Zone)
  deriving DecidableEq, Repr

/-- The wording of each cause. -/
def PlacementError.message : PlacementError → String
  | .emptyHeap => "heap size must not be zero"
  | .unalignedHeap start =>
    s!"heap base {Text.hexAddr start} is not aligned to {blockSize} bytes"
  | .heapPastEnd heap => s!"heap {heap.text} runs past the end of the address space"
  | .heapOverGuardZone heap =>
    s!"heap {heap.text} overlaps the invalid pointer zone {guardZone.text}"
  | .reservedOverHeap zone heap => s!"reserved zone {zone.text} overlaps the heap {heap.text}"

/-- Checks that the table can represent the heap where it is placed. -/
def Config.checkPlacement (config : Config) : Except PlacementError Unit :=
  let heap := config.heap
  if heap.size = 0 then .error .emptyHeap
  else if heap.start.toNat % blockSize ≠ 0 then .error (.unalignedHeap heap.start)
  else if addressCount < heap.stop then .error (.heapPastEnd heap)
  else if heap.meets guardZone then .error (.heapOverGuardZone heap)
  else
    match config.reserved.find? (·.meets heap) with
    | some zone => .error (.reservedOverHeap zone heap)
    | none => .ok ()

end RegionGuard
