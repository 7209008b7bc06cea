import RegionGuard.Address.Zone
import RegionGuard.Heap.Bytes
import RegionGuard.Heap.Extents

/-!
# The heap

The heap hands out pieces of one zone.  Each is followed by at least one guard
byte, so that the address behind an allocation is never the start of the next
one, and all are aligned to `heapUnit` bytes.  The first free extent that is
long enough is used; a released one is merged with its free neighbours.

Address 0 is never handed out.
-/

namespace RegionGuard

/-- The alignment of every address that the heap hands out. -/
abbrev heapUnit : Nat := 8

/-- The least multiple of `heapUnit` that is not smaller than `n`. -/
def roundUp (n : Nat) : Nat :=
  (n + heapUnit - 1) / heapUnit * heapUnit

/-- Why memory cannot be accessed. -/
inductive SegmentError
  /-- The address is not backed by memory. -/
  | notMapped
  /-- The access starts in memory and runs past its end. -/
  | pastEnd
  deriving DecidableEq, Repr

/-- The wording of each cause. -/
def SegmentError.message : SegmentError → String
  | .notMapped => "address not mapped"
  | .pastEnd => "access runs past the end of the segment"

/-- A zone of memory with its free and its used extents. -/
structure Heap where
  /-- The addresses that the heap hands out. -/
  zone : Zone
  /-- The content of the memory. -/
  bytes : Bytes
  /-- The extents that can be handed out; no two of them touch. -/
  free : Extents
  /-- The extents that are in use, their guard bytes included. -/
  live : Extents

namespace Heap

/-- The first address of a zone that can be handed out. -/
def firstUsable (zone : Zone) : Nat :=
  roundUp (zone.start.toNat + if zone.start = 0 then heapUnit else 0)

/-- A heap of zeros in which everything is free. -/
def fresh (zone : Zone) : Heap where
  zone := zone
  bytes := Bytes.zeros
  free :=
    if firstUsable zone < zone.stop then
      [⟨UInt32.ofNat (firstUsable zone), UInt32.ofNat (zone.stop - firstUsable zone)⟩]
    else []
  live := []

/-- How many extents are in use. -/
def liveCount (heap : Heap) : Nat :=
  heap.live.length

/-- How many bytes are not in use. -/
def freeTotal (heap : Heap) : Nat :=
  heap.free.total

/-- Whether the `size` bytes at an address are backed by the heap's memory. -/
def mapped (heap : Heap) (addr : Addr) (size : UInt32) : Except SegmentError Unit :=
  if addr < heap.zone.start ∨ heap.zone.stop ≤ addr.toNat then .error .notMapped
  else if heap.zone.covers addr size then .ok ()
  else .error .pastEnd

/-- The bytes at an address. -/
def read (heap : Heap) (addr : Addr) (size : UInt32) : Except SegmentError (List UInt8) :=
  match heap.mapped addr size with
  | .error e => .error e
  | .ok () => .ok (heap.bytes.read addr.toNat size.toNat)

/-- Stores bytes at an address. -/
def write (heap : Heap) (addr : Addr) (data : List UInt8) : Except SegmentError Unit × Heap :=
  if addressCount ≤ data.length then (.error .pastEnd, heap)
  else
    match heap.mapped addr (UInt32.ofNat data.length), heap with
    | .error e, heap => (.error e, heap)
    | .ok (), ⟨zone, bytes, free, live⟩ =>
      (.ok (), ⟨zone, bytes.write addr.toNat data, free, live⟩)

/-- Makes the bytes at an address zero. -/
def clear (heap : Heap) (addr : Addr) (size : UInt32) : Except SegmentError Unit × Heap :=
  match heap.mapped addr size, heap with
  | .error e, heap => (.error e, heap)
  | .ok (), ⟨zone, bytes, free, live⟩ =>
    (.ok (), ⟨zone, bytes.clear addr.toNat size.toNat, free, live⟩)

/-- Copies bytes in place; the ranges may overlap.  The source is checked first. -/
def copy (heap : Heap) (source target : Addr) (size : UInt32) :
    Except SegmentError Unit × Heap :=
  match heap.mapped source size, heap.mapped target size, heap with
  | .error e, _, heap => (.error e, heap)
  | .ok (), .error e, heap => (.error e, heap)
  | .ok (), .ok (), ⟨zone, bytes, free, live⟩ =>
    (.ok (), ⟨zone, bytes.copy source.toNat target.toNat size.toNat, free, live⟩)

/-- The length of the extent that an allocation of `size` bytes needs: room for
the guard byte, rounded up.  There is none if it has no 32-bit value. -/
def needed? (size : UInt32) : Option UInt32 :=
  let length := roundUp (size.toNat + 1)
  if length < addressCount then some (UInt32.ofNat length) else none

/-- Hands out the start of the first free extent that is long enough. -/
def allocate (heap : Heap) (size : UInt32) : Option Addr × Heap :=
  match needed? size with
  | none => (none, heap)
  | some needed =>
    match heap.free.find? (needed ≤ ·.length), heap with
    | none, heap => (none, heap)
    | some found, ⟨zone, bytes, free, live⟩ =>
      let free := Extents.erase free found.start
      let free :=
        if needed < found.length then
          Extents.insert free ⟨found.start + needed, found.length - needed⟩
        else free
      (some found.start, ⟨zone, bytes, free, Extents.insert live ⟨found.start, needed⟩⟩)

/-- Adds an extent to the free ones, merged with the free extent behind it and
the one before it where they touch. -/
def reclaim (zone : Zone) (free : Extents) (e : Extent) : Extents :=
  let (free, e) :=
    if e.stop < zone.stop then
      let next := UInt32.ofNat e.stop
      match Extents.lengthAt? free next with
      | some length => (Extents.erase free next, { e with length := e.length + length })
      | none => (free, e)
    else (free, e)
  match Extents.before? free e.start with
  | some before =>
    if before.stop = e.start.toNat then
      Extents.insert free ⟨before.start, e.length + before.length⟩
    else Extents.insert free e
  | none => Extents.insert free e

/-- Takes back the extent that starts at an address; any other address is
ignored. -/
def release (heap : Heap) (addr : Addr) : Heap :=
  match heap with
  | ⟨zone, bytes, free, live⟩ =>
    match Extents.lengthAt? live addr with
    | none => ⟨zone, bytes, free, live⟩
    | some length => ⟨zone, bytes, reclaim zone free ⟨addr, length⟩, Extents.erase live addr⟩

end Heap

end RegionGuard
