/-!
# How a 32-bit address is divided

From the most significant bit down, an address has a *directory* field of 13
bits, a *page* field of 11 bits and an *offset* field of 8 bits.  The offset
counts the addresses inside one *block*, and the first two fields together name
the block.  A `Slot` is the place of a block's entry in the region table: which
directory slot, and which entry of that slot's page.
-/

namespace RegionGuard

/-- An address of the guarded 32-bit address space.  Its arithmetic wraps. -/
abbrev Addr := UInt32

/-- Width of the directory field. -/
abbrev directoryBits : Nat := 13

/-- Width of the page field. -/
abbrev pageBits : Nat := 11

/-- Width of the offset field: the bits left over by the other two. -/
abbrev offsetBits : Nat := 32 - directoryBits - pageBits

/-- Number of directory slots. -/
abbrev directorySlots : Nat := 1 <<< directoryBits

/-- Number of blocks, and so of entries, in one page. -/
abbrev blocksPerPage : Nat := 1 <<< pageBits

/-- Number of addresses in one block. -/
abbrev blockSize : Nat := 1 <<< offsetBits

/-- Width of the page and offset fields together. -/
abbrev slotSpanBits : Nat := pageBits + offsetBits

/-- Number of addresses that one directory slot covers. -/
abbrev slotSpan : Nat := 1 <<< slotSpanBits

/-- Number of blocks in the whole address space. -/
abbrev blockCount : Nat := 1 <<< (directoryBits + pageBits)

/-- Number of addresses: the end of the address space. -/
abbrev addressCount : Nat := 1 <<< 32

/-- The place of a block's entry: a directory slot and an index into its page. -/
structure Slot where
  /-- The directory slot. -/
  dir : Fin directorySlots
  /-- The entry's index in the page of that slot. -/
  index : Fin blocksPerPage
  deriving DecidableEq, Repr

namespace Slot

/-- The slot of the block with a given number.  Numbers from `blockCount` on
start again at the first block. -/
def ofBlock (block : Nat) : Slot where
  dir := ⟨block / blocksPerPage % directorySlots, Nat.mod_lt _ (by decide)⟩
  index := ⟨block % blocksPerPage, Nat.mod_lt _ (by decide)⟩

/-- The slot of the block that holds an address. -/
def ofAddr (addr : Addr) : Slot :=
  ofBlock (addr.toNat / blockSize)

/-- The number of the block, counted from address 0. -/
def number (s : Slot) : Nat :=
  s.dir * blocksPerPage + s.index

/-- The first address of the block. -/
def firstAddr (s : Slot) : Addr :=
  UInt32.ofNat (s.number * blockSize)

/-- The slot of the following block, if there is one. -/
def next? (s : Slot) : Option Slot :=
  if s.number + 1 < blockCount then some (ofBlock (s.number + 1)) else none

/-- Slots number the blocks of the address space and no more. -/
theorem number_lt (s : Slot) : s.number < blockCount := by
  have hd := s.dir.isLt
  have hi := s.index.isLt
  simp only [number, directorySlots, blocksPerPage, blockCount, directoryBits, pageBits] at *
  omega

/-- A block's number names the block. -/
theorem ofBlock_number (s : Slot) : ofBlock s.number = s := by
  rcases s with ⟨⟨d, hd⟩, ⟨i, hi⟩⟩
  have hd' : d < 8192 := hd
  have hi' : i < 2048 := hi
  have hdir : (d * 2048 + i) / 2048 % 8192 = d := by omega
  have hindex : (d * 2048 + i) % 2048 = i := by omega
  exact congr (congrArg mk (Fin.ext hdir)) (Fin.ext hindex)

/-- The slot of a block has the block's number. -/
theorem number_ofBlock {b : Nat} (h : b < blockCount) : (ofBlock b).number = b := by
  have h' : b < 16777216 := h
  show b / 2048 % 8192 * 2048 + b % 2048 = b
  omega

/-- The first address of a block lies in the block. -/
theorem ofAddr_firstAddr (s : Slot) : ofAddr s.firstAddr = s := by
  have h : s.number < 16777216 := s.number_lt
  have hfirst : s.firstAddr.toNat / blockSize = s.number := by
    rw [firstAddr, UInt32.toNat_ofNat']
    show s.number * 256 % 4294967296 / 256 = s.number
    omega
  rw [ofAddr, hfirst, ofBlock_number]

end Slot

end RegionGuard
