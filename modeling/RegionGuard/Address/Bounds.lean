import RegionGuard.Address.Slot

/-!
# Bounds of a region

Bounds are a start and a size.  An address belongs to them when its distance
from the start, in wrapping arithmetic, is at most the size: an address before
the start has a distance larger than any real size, so one comparison rejects
both sides.  The comparison is inclusive, so the address just behind the last
byte still belongs, and a pointer may stand there.

No region starts at address 0, which leaves two pairs free for blocks without a
region: `untracked` matches every address, and `forbidden` none but 0.
-/

namespace RegionGuard

/-- The start and the size of a region. -/
structure Bounds where
  /-- The first address. -/
  start : Addr
  /-- The number of bytes. -/
  size : UInt32
  deriving DecidableEq, Repr

namespace Bounds

/-- Bounds of memory that nobody tracks. -/
abbrev untracked : Bounds := ⟨0, 0xffffffff⟩

/-- Bounds of memory that nobody may access. -/
abbrev forbidden : Bounds := ⟨0, 0⟩

/-- The distance of an address from the start, in wrapping arithmetic. -/
def distance (b : Bounds) (addr : Addr) : UInt32 :=
  addr - b.start

/-- Whether the address belongs to the bounds, their end included. -/
def contains (b : Bounds) (addr : Addr) : Bool :=
  b.distance addr ≤ b.size

/-- Whether these bounds describe the absence of a region. -/
def isVacant (b : Bounds) : Bool :=
  b.start == 0

/-- The address behind the last byte. -/
def stop (b : Bounds) : Addr :=
  b.start + b.size

end Bounds

end RegionGuard
