import RegionGuard.Table.Basic

/-!
# Registering and removing regions

A region `[start, start + size]`, its end included, is entered at every block it
touches.  Its first and last block may be shared with other regions, so there it
is put in front of what the block already holds.  The blocks strictly between
belong to it alone, and their entries are overwritten.

An operation that fails returns the table as well, because the failed look-up
may have reordered a chain.
-/

namespace RegionGuard

namespace Table

/-- Enters a region in front of the other regions of a block. -/
def attach (t : Table) (s : Slot) (bounds : Bounds) : Except Violation Unit × Table :=
  match t with
  | ⟨directory, nodes⟩ =>
    match directory.own s.dir with
    | (none, directory) => (.error .metadataExhausted, ⟨directory, nodes⟩)
    | (some _, directory) =>
      let entry := directory.entry s
      if entry.bounds.isVacant then
        (.ok (), ⟨directory.modifyEntry s fun e => { e with bounds := bounds }, nodes⟩)
      else
        match nodes.add ⟨entry.bounds, entry.next⟩ with
        | (none, nodes) => (.error .metadataExhausted, ⟨directory, nodes⟩)
        | (some id, nodes) =>
          (.ok (),
            ⟨directory.modifyEntry s fun e => { e with bounds := bounds, next := some id }, nodes⟩)

/-- Removes the first region that starts at `start` from a block.  The entry
itself stays: it takes over the region behind it, or becomes the block's
sentinel if there is none. -/
def detach (t : Table) (s : Slot) (start : Addr) : Table :=
  match t with
  | ⟨directory, nodes⟩ =>
    let entry := directory.entry s
    if entry.bounds.start = start ∧ entry.bounds.isVacant = false then
      match entry.next with
      | none => ⟨directory.modifyEntry s Entry.vacate, nodes⟩
      | some id =>
        match nodes.remove id with
        | (node, nodes) =>
          ⟨directory.modifyEntry s fun e => { e with bounds := node.bounds, next := node.next },
            nodes⟩
    else
      match nodes.find? entry.next (·.start == start) with
      | none => ⟨directory, nodes⟩
      | some (before, id) =>
        let next := (nodes.get id).next
        match before with
        | none =>
          ⟨directory.modifyEntry s fun e => { e with next := next }, (nodes.remove id).2⟩
        | some b =>
          ⟨directory, ((nodes.modify b fun n => { n with next := next }).remove id).2⟩

/-- Removes the region that starts at `start` from every block from `first` to
`last`.  Blocks on a shared page hold no region, so no page is needed. -/
def detachRange (t : Table) (first last : Slot) (start : Addr) : Table :=
  let t := t.detach first start
  if first = last then t
  else
    match t with
    | ⟨directory, nodes⟩ =>
      let directory := (directory.modifySpan false Entry.vacate (first.number + 1) last.number).2
      (Table.mk directory nodes).detach last start

/-- Enters a region at the blocks behind its first one, `first`, up to `last`. -/
def attachRest (t : Table) (first last : Slot) (bounds : Bounds) :
    Except Violation Unit × Table :=
  match t with
  | ⟨directory, nodes⟩ =>
    match directory.modifySpan true (Entry.hold bounds) (first.number + 1) last.number with
    | (false, directory) => (.error .metadataExhausted, ⟨directory, nodes⟩)
    | (true, directory) => (Table.mk directory nodes).attach last bounds

/-- Registers the region of `size` bytes at `start`.  The caller sees to it that
no address, the end addresses included, lies in two regions.  If the
bookkeeping fails midway, what was entered is removed again. -/
def register (t : Table) (start : Addr) (size : UInt32) : Except Violation Unit × Table :=
  if start = 0 then (.error .nullRegion, t)
  else if addressCount ≤ start.toNat + size.toNat then
    (.error (.regionOverflow start size), t)
  else
    let bounds : Bounds := ⟨start, size⟩
    let first := Slot.ofAddr start
    let last := Slot.ofAddr bounds.stop
    match t.attach first bounds with
    | (.error violation, t) => (.error violation, t)
    | (.ok (), t) =>
      if first = last then (.ok (), t)
      else
        match t.attachRest first last bounds with
        | (.ok (), t) => (.ok (), t)
        | (.error violation, t) => (.error violation, t.detachRange first last start)

/-- Removes the region that starts exactly at `start`.  Each block that loses its
last region falls back to its own sentinel. -/
def unregister (t : Table) (start : Addr) : Except Violation Unit × Table :=
  match t.lookup start with
  | (found, t) =>
    if found.isVacant || found.start != start then (.error (.invalidRemoval start), t)
    else (.ok (), t.detachRange (Slot.ofAddr start) (Slot.ofAddr found.stop) start)

/-- The size of the region that starts exactly at an address. -/
def sizeAt (t : Table) (addr : Addr) : Option UInt32 × Table :=
  match t.lookup addr with
  | (bounds, t) =>
    if bounds.isVacant || bounds.start != addr then (none, t) else (some bounds.size, t)

end Table

end RegionGuard
