import RegionGuard.Table.Directory

/-!
# Runs of blocks

Two operations work on many consecutive blocks.  `modifySpan` changes the
entries of the blocks of a run.  It goes through the `stretches` of the run, one
for each page, and either gives shared slots a page of their own first or skips
them.  `forbidZone` makes the blocks that a zone covers entirely forbidden; a
slot whose blocks are all covered is pointed at the shared forbidden page, so a
large zone needs no pages.
-/

namespace RegionGuard

/-- A part of a run of blocks that lies on one page, by the numbers of the slot and of the
entries. -/
structure Stretch where
  /-- The number of the directory slot. -/
  dir : Nat
  /-- The index of the first entry. -/
  index : Nat
  /-- How many entries follow from there. -/
  length : Nat
  deriving DecidableEq, Repr

/-- The directory slot.  Numbers from `directorySlots` on start again at the first one. -/
def Stretch.slot (r : Stretch) : Fin directorySlots :=
  ⟨r.dir % directorySlots, Nat.mod_lt _ (by decide)⟩

namespace Directory

/-- How many of the blocks from `block` up to `stop` are on the page of `block`. -/
def runLength (block stop : Nat) : Nat :=
  min (blocksPerPage - block % blocksPerPage) (stop - block)

/-- A run that has a block has one on the page of its first block. -/
theorem runLength_pos {block stop : Nat} (h : block < stop) : 0 < runLength block stop := by
  have := Nat.mod_lt block (show 0 < blocksPerPage by decide)
  unfold runLength
  omega

/-- The parts of the run from `block` up to, and without, `stop`, in ascending order. -/
def stretches (block stop : Nat) : List Stretch :=
  if _ : block < stop then
    ⟨block / blocksPerPage, block % blocksPerPage, runLength block stop⟩ ::
      stretches (block + runLength block stop) stop
  else []
termination_by stop - block
decreasing_by
  have := runLength_pos ‹block < stop›
  omega

/-- Applies `change` to the entries of parts of a run, one part after the other.  With
`promote`, slots that share a page get one of their own first, and the flag returned is
false if there is no identifier left for it; without it, such slots are skipped, because
they hold no region. -/
def modifyStretches (promote : Bool) (change : Entry → Entry) (dir : Directory) :
    List Stretch → Bool × Directory
  | [] => (true, dir)
  | r :: rest =>
    let (ready, dir) :=
      if promote then
        match dir.own r.slot with
        | (page, dir) => (page.isSome, dir)
      else (true, dir)
    if ready then
      modifyStretches promote change
        (dir.modifyPage r.slot fun page => page.modifyRange r.index change r.length) rest
    else (false, dir)

/-- Applies `change` to the entry of every block from `block` up to, and without,
`stop`, page by page. -/
def modifySpan (dir : Directory) (promote : Bool) (change : Entry → Entry)
    (block stop : Nat) : Bool × Directory :=
  dir.modifyStretches promote change (stretches block stop)

/-- Makes the blocks from `block` up to, and without, `stop` forbidden.  The flag
returned is false if a page was needed and no identifier was left for it. -/
def forbidSpan (dir : Directory) (block stop : Nat) : Bool × Directory :=
  if _ : block < stop then
    let s := Slot.ofBlock block
    if s.index.val = 0 ∧ block + blocksPerPage ≤ stop ∧ dir.isOwned s.dir = false then
      forbidSpan (dir.forbid s.dir) (block + blocksPerPage) stop
    else
      match dir.own s.dir with
      | (none, dir) => (false, dir)
      | (some _, dir) =>
        forbidSpan (dir.modifyEntry s fun _ => Entry.forbidden) (block + 1) stop
  else (true, dir)
termination_by stop - block
decreasing_by
  all_goals
    have : 0 < blocksPerPage := by decide
    omega

/-- The first block that lies in a zone from its first address on. -/
def firstCovered (z : Zone) : Nat :=
  (z.start.toNat + blockSize - 1) / blockSize

/-- The block behind the last one that lies in a zone up to its last address. -/
def stopCovered (z : Zone) : Nat :=
  min (z.stop / blockSize) blockCount

/-- Makes the blocks that lie entirely in a zone forbidden. -/
def forbidZone (dir : Directory) (z : Zone) : Bool × Directory :=
  dir.forbidSpan (firstCovered z) (stopCovered z)

end Directory

end RegionGuard
