import RegionGuard.Proofs.Table.Linking

/-!
# The footprint of an operation

Besides what the blocks hold, an operation changes which directory slots own a
page and how many nodes the pool has.  Entering a region `Charges` for it: the
slots that it touches own their pages afterwards, and the pool grows only when
more nodes are in use than ever before.  Looking up and removing are `Frugal`:
no slot gets a page, the pool keeps its size, and no more nodes are in use.
-/

namespace RegionGuard

namespace Table

/-- The slots in `dirs` come to those that own a page, at most `most` more nodes are
in use, and the pool has grown no more than that made it necessary. -/
structure Charges (t after : Table) (dirs : Set (Fin directorySlots)) (most : Nat) : Prop where
  owned_iff : ∀ d, after.directory.isOwned d = true ↔ t.directory.isOwned d = true ∨ d ∈ dirs
  size_eq : after.nodes.nodes.size = max t.nodes.nodes.size after.nodes.usedCount
  le_used : t.nodes.usedCount ≤ after.nodes.usedCount
  used_le : after.nodes.usedCount ≤ t.nodes.usedCount + most

/-- No slot gets a page, the pool keeps its size, and no more nodes are in use. -/
structure Frugal (t after : Table) : Prop where
  owned_eq : ∀ d, after.directory.isOwned d = t.directory.isOwned d
  size_eq : after.nodes.nodes.size = t.nodes.nodes.size
  used_le : after.nodes.usedCount ≤ t.nodes.usedCount

variable {t middle after : Table}

/-- What two operations charge for is charged for when one follows the other. -/
theorem Charges.trans {dirs more : Set (Fin directorySlots)} {most extra : Nat}
    (h : t.Charges middle dirs most) (h' : middle.Charges after more extra) :
    t.Charges after (dirs ∪ more) (most + extra) where
  owned_iff d := by rw [h'.owned_iff, h.owned_iff, Set.mem_union, or_assoc]
  size_eq := by
    have hle := h'.le_used
    rw [h'.size_eq, h.size_eq]
    omega
  le_used := h.le_used.trans h'.le_used
  used_le := by
    have hfirst := h.used_le
    have hsecond := h'.used_le
    omega

/-- A bound on the nodes taken may be raised. -/
theorem Charges.mono {dirs : Set (Fin directorySlots)} {most more : Nat}
    (h : t.Charges after dirs most) (hmost : most ≤ more) : t.Charges after dirs more :=
  { h with used_le := h.used_le.trans (Nat.add_le_add_left hmost _) }

/-- Only the directory has changed, and some slots have got pages. -/
theorem Charges.of_directory {dirs : Set (Fin directorySlots)} (directory : Directory)
    (howned : ∀ d, directory.isOwned d = true ↔ t.directory.isOwned d = true ∨ d ∈ dirs) :
    t.Charges ⟨directory, t.nodes⟩ dirs 0 where
  owned_iff := howned
  size_eq := (max_eq_left (Nat.sub_le _ _)).symm
  le_used := Nat.le_refl _
  used_le := Nat.le_refl _

theorem Frugal.refl (t : Table) : t.Frugal t :=
  ⟨fun _ => rfl, rfl, Nat.le_refl _⟩

/-- One step after the other takes nothing if neither does. -/
theorem Frugal.trans (h : t.Frugal middle) (h' : middle.Frugal after) : t.Frugal after :=
  ⟨fun d => (h'.owned_eq d).trans (h.owned_eq d), h'.size_eq.trans h.size_eq,
    h'.used_le.trans h.used_le⟩

/-- Changing entries and the contents of nodes takes nothing. -/
theorem Frugal.of_size {directory : Directory} {nodes : NodePool}
    (howned : ∀ d, directory.isOwned d = t.directory.isOwned d)
    (hsize : nodes.nodes.size = t.nodes.nodes.size)
    (hfree : t.nodes.freeCount ≤ nodes.freeCount) : t.Frugal ⟨directory, nodes⟩ where
  owned_eq := howned
  size_eq := hsize
  used_le := by
    show nodes.nodes.size - nodes.freeCount ≤ t.nodes.nodes.size - t.nodes.freeCount
    omega

end Table

namespace Directory

@[simp] theorem isOwned_modifyEntry (dir : Directory) (s : Slot) (d : Fin directorySlots)
    (change : Entry → Entry) : (dir.modifyEntry s change).isOwned d = dir.isOwned d :=
  dir.isOwned_modifyPage s.dir d _

/-- A change of a range without `promote` gives no slot a page. -/
theorem isOwned_modifySpan_false (dir : Directory) (change : Entry → Entry) {block stop : Nat}
    (hstop : stop ≤ blockCount) (d : Fin directorySlots) :
    (dir.modifySpan false change block stop).2.isOwned d = dir.isOwned d := by
  rw [Bool.eq_iff_iff, dir.isOwned_modifySpan false change hstop d]
  simp

end Directory

end RegionGuard
