import RegionGuard.Table.Basic
import RegionGuard.Proofs.Table.Range

/-!
# Reserved zones

A table starts with the blocks that one of its zones fills forbidden and all
other blocks untracked.  A block that two zones fill only together is not among
them, and neither the order of the zones nor the short cut over whole directory
slots shows.
-/

namespace RegionGuard

/-- The address lies in the zone. -/
def Zone.Has (z : Zone) (addr : Addr) : Prop :=
  z.start.toNat ≤ addr.toNat ∧ addr.toNat < z.stop

instance (z : Zone) (addr : Addr) : Decidable (z.Has addr) :=
  inferInstanceAs (Decidable (_ ∧ _))

/-- The zone has every address of the block. -/
def Zone.Fills (z : Zone) (s : Slot) : Prop :=
  z.start.toNat ≤ s.number * blockSize ∧ (s.number + 1) * blockSize ≤ z.stop

instance (z : Zone) (s : Slot) : Decidable (z.Fills s) :=
  inferInstanceAs (Decidable (_ ∧ _))

/-- A single one of the zones, or the zone of the invalid pointer, has every
address of the block. -/
def Reserved (zones : List Zone) (s : Slot) : Prop :=
  ∃ z ∈ guardZone :: zones, z.Fills s

instance (zones : List Zone) (s : Slot) : Decidable (Reserved zones s) :=
  inferInstanceAs (Decidable (∃ z ∈ _, _))

/-- The blocks that a zone fills are the range that the table makes forbidden. -/
theorem Zone.fills_iff (z : Zone) (s : Slot) :
    z.Fills s ↔ Directory.firstCovered z ≤ s.number ∧ s.number < Directory.stopCovered z := by
  have hs : s.number < 16777216 := s.number_lt
  show z.start.toNat ≤ s.number * 256 ∧ (s.number + 1) * 256 ≤ z.stop ↔
    (z.start.toNat + 256 - 1) / 256 ≤ s.number ∧ s.number < min (z.stop / 256) 16777216
  omega

namespace Table

/-- Marking a zone always succeeds and forbids exactly the blocks that it fills. -/
theorem entry_forbidZone (dir : Directory) (z : Zone) :
    (dir.forbidZone z).1 = true ∧
    ∀ s, (dir.forbidZone z).2.entry s =
      if z.Fills s then Entry.forbidden else dir.entry s := by
  obtain ⟨hok, hentry⟩ :=
    dir.entry_forbidSpan (Directory.firstCovered z)
      (show Directory.stopCovered z ≤ blockCount from Nat.min_le_right _ _)
  refine ⟨hok, fun s => ?_⟩
  rw [Directory.forbidZone, hentry]
  exact if_congr (z.fills_iff s).symm rfl rfl

/-- Making the zones of a list forbidden succeeds and forbids the blocks that one
of them fills. -/
theorem exists_forbidZones (dir : Directory) (zones : List Zone) :
    ∃ after, forbidZones dir zones = .ok after ∧
      ∀ s, after.entry s =
        if ∃ z ∈ zones, z.Fills s then Entry.forbidden else dir.entry s := by
  induction zones generalizing dir with
  | nil => exact ⟨dir, rfl, fun s => by simp⟩
  | cons z zones ih =>
      obtain ⟨hok, hentry⟩ := entry_forbidZone dir z
      obtain ⟨after, hafter, hrest⟩ := ih (dir.forbidZone z).2
      refine ⟨after, ?_, fun s => ?_⟩
      · rw [forbidZones]
        split
        · rename_i later heq
          rw [heq] at hafter
          exact hafter
        · rename_i later heq
          rw [heq] at hok
          cases hok
      · rw [hrest, hentry]
        by_cases hz : z.Fills s <;> simp [hz]

/-- At first every block is untracked. -/
theorem entry_blank (s : Slot) : Directory.blank.entry s = Entry.untracked := by
  simp [Directory.blank, Directory.entry, Backing.template]

/-- There is a table for every list of zones.  It has no nodes, and exactly the
blocks that one of the zones fills are forbidden. -/
theorem exists_reserving (zones : List Zone) :
    ∃ t, reserving zones = .ok t ∧ t.nodes = NodePool.empty ∧
      ∀ s, t.entry s = if Reserved zones s then Entry.forbidden else Entry.untracked := by
  obtain ⟨dir, hdir, hentry⟩ := exists_forbidZones Directory.blank (guardZone :: zones)
  refine ⟨⟨dir, NodePool.empty⟩, ?_, rfl, fun s => ?_⟩
  · rw [reserving, hdir]
    rfl
  · show dir.entry s = _
    rw [hentry, entry_blank]
    rfl

end Table

end RegionGuard
