import RegionGuard.Table.NodePool

/-!
# Entries and pages

Each block has one entry.  It holds one region that touches the block, or a
sentinel if none does, and leads to the nodes of the others.  It also says what
the block falls back to without a region: untracked or forbidden memory.

A page is the entries of `blocksPerPage` consecutive blocks.
-/

namespace RegionGuard

/-- What the table knows about one block. -/
structure Entry where
  /-- The region looked at first, or the block's sentinel. -/
  bounds : Bounds
  /-- The first node of the other regions. -/
  next : Option NodeId
  /-- Whether an address in no region is forbidden rather than untracked. -/
  isForbidden : Bool
  deriving DecidableEq, Repr

namespace Entry

/-- The entry of an untracked block without a region. -/
abbrev untracked : Entry := ⟨Bounds.untracked, none, false⟩

/-- The entry of a forbidden block without a region. -/
abbrev forbidden : Entry := ⟨Bounds.forbidden, none, true⟩

/-- The sentinel that the block falls back to. -/
def fallback (e : Entry) : Bounds :=
  if e.isForbidden then Bounds.forbidden else Bounds.untracked

/-- The entry for exactly one region. -/
def hold (bounds : Bounds) (e : Entry) : Entry :=
  { e with bounds := bounds, next := none }

/-- The entry for no region, that falls back to the same sentinel. -/
def vacate (e : Entry) : Entry :=
  { e with bounds := e.fallback, next := none }

end Entry

/-- The entries of consecutive blocks. -/
structure Page where
  /-- One entry for each block. -/
  entries : Vector Entry blocksPerPage
  deriving DecidableEq

namespace Page

/-- A page whose entries are all the same. -/
def uniform (template : Entry) : Page :=
  ⟨Vector.replicate blocksPerPage template⟩

/-- The entry at an index. -/
def entry (page : Page) (i : Fin blocksPerPage) : Entry :=
  page.entries[i]

/-- Changes the entry at an index; an index outside the page changes nothing. -/
def modify (page : Page) (i : Nat) (change : Entry → Entry) : Page :=
  match page with
  | ⟨⟨entries, h⟩⟩ => ⟨⟨entries.modify i change, by simpa using h⟩⟩

/-- Changes `count` entries, from one index on. -/
def modifyRange (page : Page) (start : Nat) (change : Entry → Entry) : (count : Nat) → Page
  | 0 => page
  | count + 1 => modifyRange (page.modify start change) (start + 1) change count

theorem entry_uniform (template : Entry) (i : Fin blocksPerPage) :
    (uniform template).entry i = template := by
  simp [uniform, entry]

/-- A change reaches the entry at its index and no other. -/
theorem entry_modify (page : Page) (i : Nat) (change : Entry → Entry)
    (j : Fin blocksPerPage) :
    (page.modify i change).entry j = if i = j then change (page.entry j) else page.entry j := by
  rcases page with ⟨⟨entries, h⟩⟩
  simp [modify, entry, Array.getElem_modify]

/-- Exactly the entries of the range are changed. -/
theorem entry_modifyRange (page : Page) (start count : Nat) (change : Entry → Entry)
    (j : Fin blocksPerPage) :
    (page.modifyRange start change count).entry j =
      if start ≤ j ∧ j < start + count then change (page.entry j) else page.entry j := by
  induction count generalizing page start with
  | zero =>
    rw [modifyRange, if_neg (by omega)]
  | succ count ih =>
    rw [modifyRange, ih, entry_modify]
    by_cases h : start = j
    · rw [if_neg (by omega), if_pos h, if_pos (by omega)]
    · by_cases hr : start + 1 ≤ j ∧ j < start + 1 + count
      · rw [if_pos hr, if_neg h, if_pos (by omega)]
      · rw [if_neg hr, if_neg h, if_neg (by omega)]

end Page

end RegionGuard
