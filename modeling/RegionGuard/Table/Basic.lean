import RegionGuard.Table.Span
import RegionGuard.Violation

/-!
# The region table

The table finds the region that an address belongs to.  Every region is entered
at each block it touches, so a look-up reads one entry and, if the address is
not in that entry's region, walks the block's chain.  A region found behind the
entry changes places with the entry's one, so that looking it up again needs no
walk.  A look-up therefore returns the table along with its answer.
-/

namespace RegionGuard

/-- The entries of all blocks and the nodes behind them. -/
structure Table where
  /-- The entries. -/
  directory : Directory
  /-- The nodes. -/
  nodes : NodePool

/-- What an address is. -/
inductive Standing
  /-- It belongs to a region. -/
  | region (bounds : Bounds)
  /-- It belongs to no region, and nothing is known about its block. -/
  | untracked
  /-- It belongs to no region, and its block is forbidden. -/
  | forbidden
  deriving DecidableEq, Repr

/-- What an address is, by the bounds that govern it. -/
def Standing.of (bounds : Bounds) : Standing :=
  if bounds = Bounds.untracked then .untracked
  else if bounds.isVacant then .forbidden
  else .region bounds

/-- Counts of the table's bookkeeping. -/
structure Table.Counts where
  /-- Directory slots with a page of their own. -/
  ownedPages : Nat
  /-- Nodes behind some entry. -/
  liveNodes : Nat
  /-- Nodes that wait to be used again. -/
  freeNodes : Nat
  deriving DecidableEq, Repr

namespace Table

/-- Makes the blocks that lie entirely in one of the zones forbidden. -/
def forbidZones (dir : Directory) : List Zone → Except Violation Directory
  | [] => .ok dir
  | z :: zones =>
    match dir.forbidZone z with
    | (true, dir) => forbidZones dir zones
    | (false, _) => .error .metadataExhausted

/-- The table without regions in which the zone of the invalid pointer and the
given zones are forbidden, as far as they cover whole blocks. -/
def reserving (reserved : List Zone) : Except Violation Table :=
  (forbidZones Directory.blank (guardZone :: reserved)).map
    fun dir => ⟨dir, NodePool.empty⟩

/-- The entry of a block. -/
def entry (t : Table) (s : Slot) : Entry :=
  t.directory.entry s

/-- The bounds that govern an address, according to the entry and the chain of
the given block: a region that contains the address, else what
the block falls back to. -/
def find (t : Table) (s : Slot) (addr : Addr) : Bounds × Table :=
  match t with
  | ⟨directory, nodes⟩ =>
    let entry := directory.entry s
    if entry.bounds.contains addr then (entry.bounds, ⟨directory, nodes⟩)
    else
      match nodes.find? entry.next (·.contains addr) with
      | none => (entry.fallback, ⟨directory, nodes⟩)
      | some (_, id) =>
        let found := (nodes.get id).bounds
        (found,
          ⟨directory.modifyEntry s fun e => { e with bounds := found },
            nodes.modify id fun n => { n with bounds := entry.bounds }⟩)

/-- The bounds that govern an address. -/
def lookup (t : Table) (addr : Addr) : Bounds × Table :=
  t.find (Slot.ofAddr addr) addr

/-- What an address is. -/
def standing (t : Table) (addr : Addr) : Standing × Table :=
  match t.lookup addr with
  | (bounds, t) => (.of bounds, t)

/-- The regions entered at the block of an address, in the order in which they
are looked at. -/
def regionsAt (t : Table) (addr : Addr) : List Bounds :=
  let entry := t.entry (Slot.ofAddr addr)
  let behind := t.nodes.regions entry.next
  if entry.bounds.isVacant then behind else entry.bounds :: behind

/-- The current counts. -/
def counts (t : Table) : Counts :=
  ⟨t.directory.pages.size, t.nodes.usedCount, t.nodes.freeCount⟩

end Table

end RegionGuard
