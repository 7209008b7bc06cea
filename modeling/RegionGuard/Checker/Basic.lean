import RegionGuard.Table.Region
import RegionGuard.Table.Check
import RegionGuard.Heap.Allocator
import RegionGuard.Config.Basic
import RegionGuard.Access.Scalar

/-!
# The checker

A checker owns a region table and the allocator whose allocations it registers.
Every operation returns the checker after it along with its result, because an
operation that is refused may still have reordered a chain of the table.
-/

namespace RegionGuard

/-- A region table, the heap whose allocations it knows, and the settings. -/
structure Checker (H : Type) where
  /-- The regions. -/
  table : Table
  /-- The memory and the allocator. -/
  heap : H
  /-- The settings. -/
  config : Config

/-- Why there is no checker for a configuration. -/
inductive StartError
  /-- The heap cannot be where it should be. -/
  | placement (cause : PlacementError)
  /-- The table could not be set up. -/
  | violation (cause : Violation)
  deriving DecidableEq, Repr

/-- The wording of each cause. -/
def StartError.message : StartError → String
  | .placement cause => cause.message
  | .violation cause => cause.message

namespace Checker

/-- A checker around an allocator.  The allocator's zone, widened to whole
blocks, and the reserved zones are forbidden at first, so the memory of the heap
is accessible only while it is allocated. -/
def around {H : Type} [Allocator H] (config : Config) (heap : H) :
    Except Violation (Checker H) :=
  (Table.reserving ((Allocator.zone heap).widened blockSize :: config.reserved)).map
    fun table => ⟨table, heap, config⟩

/-- A checker with a fresh heap where the configuration places it. -/
def create (config : Config) : Except StartError (Checker Heap) :=
  match config.checkPlacement with
  | .error cause => .error (.placement cause)
  | .ok () =>
    match around config (Heap.fresh config.heap) with
    | .error cause => .error (.violation cause)
    | .ok checker => .ok checker

variable {H : Type}

/-! ## Regions and pointers -/

/-- Registers memory that is not the heap's. -/
def register (c : Checker H) (addr : Addr) (size : UInt32) :
    Except Violation Unit × Checker H :=
  match c with
  | ⟨table, heap, config⟩ =>
    match table.register addr size with
    | (result, table) => (result, ⟨table, heap, config⟩)

/-- Forgets the region that starts at an address. -/
def unregister (c : Checker H) (addr : Addr) : Except Violation Unit × Checker H :=
  match c with
  | ⟨table, heap, config⟩ =>
    match table.unregister addr with
    | (result, table) => (result, ⟨table, heap, config⟩)

/-- Moves a pointer.  This never fails: outside its region the pointer becomes
invalid. -/
def advance (c : Checker H) (ptr : Pointer) (offset : Int32) : Pointer × Checker H :=
  match c with
  | ⟨table, heap, config⟩ =>
    match table.advance ptr offset config.untracked with
    | (ptr, table) => (ptr, ⟨table, heap, config⟩)

/-! ## Loads and stores -/

variable [Allocator H]

/-- The bytes that a checked access covers. -/
def loadBytes (c : Checker H) (ptr : Pointer) (offset : Int32) (width : Width) :
    Except Violation (List UInt8) × Checker H :=
  match c with
  | ⟨table, heap, config⟩ =>
    match table.locate ptr offset width config.untracked with
    | (.error violation, table) => (.error violation, ⟨table, heap, config⟩)
    | (.ok addr, table) =>
      match Segment.read heap addr width.bytes with
      | .error _ => (.error (.unmapped addr width.bytes), ⟨table, heap, config⟩)
      | .ok bytes => (.ok bytes, ⟨table, heap, config⟩)

/-- Stores bytes where a checked access goes. -/
def storeBytes (c : Checker H) (ptr : Pointer) (offset : Int32) (width : Width)
    (bytes : List UInt8) : Except Violation Unit × Checker H :=
  match c with
  | ⟨table, heap, config⟩ =>
    match table.locate ptr offset width config.untracked with
    | (.error violation, table) => (.error violation, ⟨table, heap, config⟩)
    | (.ok addr, table) =>
      match Segment.write heap addr bytes with
      | (.error _, heap) => (.error (.unmapped addr width.bytes), ⟨table, heap, config⟩)
      | (.ok (), heap) => (.ok (), ⟨table, heap, config⟩)

/-- The violation for memory that answers with the wrong number of bytes. -/
def shortRead (ptr : Pointer) (offset : Int32) (width : Width) : Violation :=
  .unmapped (ptr.toAddr + offset.toUInt32) width.bytes

/-- Loads a value at an offset from a pointer, extended to 64 bits. -/
def load (c : Checker H) (ptr : Pointer) (offset : Int32) (access : Access) :
    Except Violation Int64 × Checker H :=
  match c.loadBytes ptr offset access.width with
  | (.error violation, c) => (.error violation, c)
  | (.ok bytes, c) =>
    match access.decode bytes with
    | some value => (.ok value, c)
    | none => (.error (shortRead ptr offset access.width), c)

/-- Stores the low bytes of a value at an offset from a pointer. -/
def store (c : Checker H) (ptr : Pointer) (offset : Int32) (access : Access)
    (value : Int64) : Except Violation Unit × Checker H :=
  c.storeBytes ptr offset access.width (access.encode value)

/-- Loads a value of a machine integer type. -/
def loadTyped (α : Type) [Scalar α] (c : Checker H) (ptr : Pointer) (offset : Int32) :
    Except Violation α × Checker H :=
  let width := (Scalar.access α).width
  match c.loadBytes ptr offset width with
  | (.error violation, c) => (.error violation, c)
  | (.ok bytes, c) =>
    match Scalar.ofBytes? bytes with
    | some value => (.ok value, c)
    | none => (.error (shortRead ptr offset width), c)

/-- Stores a value of a machine integer type. -/
def storeTyped {α : Type} [Scalar α] (c : Checker H) (ptr : Pointer) (offset : Int32)
    (value : α) : Except Violation Unit × Checker H :=
  c.storeBytes ptr offset (Scalar.access α).width (Scalar.toBytes value)

/-! ## Allocations -/

/-- Allocates bytes and registers them as a region.  There is no address when the
heap has no room. -/
def allocate (c : Checker H) (size : UInt32) :
    Except Violation (Option Addr) × Checker H :=
  match c with
  | ⟨table, heap, config⟩ =>
    match Allocator.allocate heap size with
    | (none, heap) => (.ok none, ⟨table, heap, config⟩)
    | (some addr, heap) =>
      match table.register addr size with
      | (.ok (), table) => (.ok (some addr), ⟨table, heap, config⟩)
      | (.error violation, table) =>
        (.error violation, ⟨table, Allocator.release heap addr, config⟩)

/-- Makes the bytes of a fresh allocation zero. -/
def clearFresh (c : Checker H) (addr : Addr) (size : UInt32) :
    Except Violation (Option Addr) × Checker H :=
  match c with
  | ⟨table, heap, config⟩ =>
    match Allocator.clear heap addr size with
    | (.ok (), heap) => (.ok (some addr), ⟨table, heap, config⟩)
    | (.error _, heap) => (.error (.unmapped addr size), ⟨table, heap, config⟩)

/-- Allocates `count` times `size` zeros.  There is no address when the product
has no 32-bit value or the heap has no room. -/
def allocateZeros (c : Checker H) (count size : UInt32) :
    Except Violation (Option Addr) × Checker H :=
  if addressCount ≤ count.toNat * size.toNat then (.ok none, c)
  else
    match c.allocate (count * size) with
    | (.ok (some addr), c) => c.clearFresh addr (count * size)
    | (.ok none, c) => (.ok none, c)
    | (.error violation, c) => (.error violation, c)

/-- Removes the region at an address and gives it back to the heap.  Address 0 is
no region, and giving it back does nothing. -/
def free (c : Checker H) (addr : Addr) : Except Violation Unit × Checker H :=
  if addr = 0 then (.ok (), c)
  else
    match c with
    | ⟨table, heap, config⟩ =>
      match table.unregister addr with
      | (.error violation, table) => (.error violation, ⟨table, heap, config⟩)
      | (.ok (), table) => (.ok (), ⟨table, Allocator.release heap addr, config⟩)

/-- Copies the bytes of an allocation to its new place and gives the old one
back. -/
def moveTo (c : Checker H) (addr target : Addr) (len : UInt32) :
    Except Violation (Option Addr) × Checker H :=
  match c with
  | ⟨table, heap, config⟩ =>
    match Allocator.copy heap addr target len with
    | (.error _, heap) => (.error (.unmapped addr len), ⟨table, heap, config⟩)
    | (.ok (), heap) =>
      match (Checker.mk table heap config).free addr with
      | (.error violation, c) => (.error violation, c)
      | (.ok (), c) => (.ok (some target), c)

/-- The size of the region that starts at an address. -/
def sizeAt (c : Checker H) (addr : Addr) : Option UInt32 × Checker H :=
  match c with
  | ⟨table, heap, config⟩ =>
    match table.sizeAt addr with
    | (size, table) => (size, ⟨table, heap, config⟩)

/-- Moves an allocation to a new place of another size, with as many of its bytes
as fit.  Address 0 allocates, and size 0 gives the allocation back.  When the
heap has no room, the allocation stays where it is and there is no address. -/
def resize (c : Checker H) (addr : Addr) (size : UInt32) :
    Except Violation (Option Addr) × Checker H :=
  if addr = 0 then c.allocate size
  else if size = 0 then
    match c.free addr with
    | (.ok (), c) => (.ok none, c)
    | (.error violation, c) => (.error violation, c)
  else
    match c.sizeAt addr with
    | (none, c) => (.error (.invalidResize addr), c)
    | (some old, c) =>
      match c.allocate size with
      | (.error violation, c) => (.error violation, c)
      | (.ok none, c) => (.ok none, c)
      | (.ok (some target), c) => c.moveTo addr target (min old size)

end Checker

end RegionGuard
