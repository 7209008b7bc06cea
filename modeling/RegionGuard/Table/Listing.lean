import RegionGuard.Table.Basic
import RegionGuard.Text.Hex

/-!
# The table as text

The listing has one line for each block that holds a region, in the order of the
addresses: the block's first address, a colon, and the start and the end of each
region in the order in which they are looked at.
-/

namespace RegionGuard

namespace Table

/-- The blocks whose entry holds a region, by ascending address.  Such a block
has an owned page, so slots that share a page are not searched. -/
def occupied (t : Table) : List Slot :=
  (List.finRange directorySlots).flatMap fun dir =>
    if t.directory.isOwned dir then
      ((List.finRange blocksPerPage).map fun index => Slot.mk dir index).filter
        fun s => !(t.entry s).bounds.isVacant
    else []

/-- One region within a line of the listing. -/
def listingRegion (bounds : Bounds) : String :=
  " " ++ Text.hexWord bounds.start ++ ":" ++ Text.hexWord bounds.stop

/-- The line of the listing for one block. -/
def listingLine (t : Table) (s : Slot) : String :=
  Text.hexWord s.firstAddr ++ ":" ++ String.join ((t.regionsAt s.firstAddr).map listingRegion) ++ "\n"

/-- All lines of the listing. -/
def listing (t : Table) : String :=
  String.join (t.occupied.map t.listingLine)

end Table

end RegionGuard
