import RegionGuard.Heap.Basic

/-!
# Memory and allocators

The checker works on any memory that can be read and written by address, with
an allocator on top.  This file says what it needs of them, makes `Heap` an
allocator, and adds one whose answers are laid down beforehand.
-/

namespace RegionGuard

/-- Memory that is read and written by address. -/
class Segment (M : Type) where
  /-- The bytes at an address. -/
  read : M → Addr → UInt32 → Except SegmentError (List UInt8)
  /-- Stores bytes at an address. -/
  write : M → Addr → List UInt8 → Except SegmentError Unit × M

namespace Segment

/-- Copies bytes by reading all of them first, so the ranges may overlap. -/
def copyBuffered {M : Type} [Segment M] (m : M) (source target : Addr) (size : UInt32) :
    Except SegmentError Unit × M :=
  match read m source size with
  | .error e => (.error e, m)
  | .ok bytes => write m target bytes

/-- Stores zeros. -/
def writeZeros {M : Type} [Segment M] (m : M) (addr : Addr) (size : UInt32) :
    Except SegmentError Unit × M :=
  write m addr (List.replicate size.toNat 0)

end Segment

/-- Memory whose owner hands out pieces of it. -/
class Allocator (H : Type) extends Segment H where
  /-- The addresses that are handed out. -/
  zone : H → Zone
  /-- Sets aside at least one byte more than asked for and returns the address,
  if there is room. -/
  allocate : H → UInt32 → Option Addr × H
  /-- Takes an address back. -/
  release : H → Addr → H
  /-- Makes bytes zero. -/
  clear : H → Addr → UInt32 → Except SegmentError Unit × H := Segment.writeZeros
  /-- Copies bytes; the ranges may overlap. -/
  copy : H → Addr → Addr → UInt32 → Except SegmentError Unit × H := Segment.copyBuffered

instance : Allocator Heap where
  read := Heap.read
  write := Heap.write
  zone := Heap.zone
  allocate := Heap.allocate
  release := Heap.release
  clear := Heap.clear
  copy := Heap.copy

/-- An allocator that gives prescribed answers and only takes note of what is
released. -/
structure ScriptedHeap where
  /-- The memory that loads and stores work on. -/
  memory : Heap
  /-- The answers still to be given; afterwards there is no room. -/
  answers : List (Option Addr)
  /-- The released addresses, in order. -/
  released : List Addr

namespace ScriptedHeap

/-- The bytes at an address. -/
def read (h : ScriptedHeap) (addr : Addr) (size : UInt32) : Except SegmentError (List UInt8) :=
  h.memory.read addr size

/-- Stores bytes at an address. -/
def write (h : ScriptedHeap) (addr : Addr) (data : List UInt8) :
    Except SegmentError Unit × ScriptedHeap :=
  match h with
  | ⟨memory, answers, released⟩ =>
    match memory.write addr data with
    | (result, memory) => (result, ⟨memory, answers, released⟩)

/-- Gives the next answer. -/
def allocate (h : ScriptedHeap) : Option Addr × ScriptedHeap :=
  match h with
  | ⟨memory, [], released⟩ => (none, ⟨memory, [], released⟩)
  | ⟨memory, answer :: answers, released⟩ => (answer, ⟨memory, answers, released⟩)

/-- Takes note of a released address. -/
def release (h : ScriptedHeap) (addr : Addr) : ScriptedHeap :=
  { h with released := h.released ++ [addr] }

end ScriptedHeap

instance : Allocator ScriptedHeap where
  read := ScriptedHeap.read
  write := ScriptedHeap.write
  zone h := h.memory.zone
  allocate h _ := h.allocate
  release := ScriptedHeap.release

end RegionGuard
