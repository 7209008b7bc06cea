import RegionGuard.Proofs.Table.Live

/-!
# What a table starts with

A fresh table has taken the short cut for every directory slot that a zone fills: the
slot shares the forbidden page.  Here the blocks are also marked one at a time, each on a
page of its slot's own.  The two tables have different pages and the same entries.

So the standing of an address in a fresh table depends on its block and on the set of
zones only: it is forbidden if a single zone has every address of the block, in whatever
order and how often the zones are listed, and untracked if not.
-/

namespace RegionGuard

/-- The blocks that the zone fills, by ascending address. -/
def Zone.blocks (z : Zone) : List Slot :=
  (List.range' (Directory.firstCovered z)
    (Directory.stopCovered z - Directory.firstCovered z)).map Slot.ofBlock

/-- The blocks of a directory slot, by ascending address. -/
def Slot.ofDirectory (d : Fin directorySlots) : List Slot :=
  (List.finRange blocksPerPage).map (Slot.mk d)

/-- The blocks between the first covered one and the last are those that the zone fills. -/
theorem Zone.mem_blocks_iff (z : Zone) (s : Slot) : s ∈ z.blocks ↔ z.Fills s := by
  have hstop : Directory.stopCovered z ≤ blockCount := Nat.min_le_right _ _
  rw [z.fills_iff]
  exact Slot.mem_range_iff hstop s

theorem Slot.mem_ofDirectory_iff (d : Fin directorySlots) (s : Slot) :
    s ∈ Slot.ofDirectory d ↔ d = s.dir := by
  rw [Slot.ofDirectory, List.mem_map]
  constructor
  · rintro ⟨i, -, rfl⟩
    rfl
  · rintro rfl
    exact ⟨s.index, List.mem_finRange _, rfl⟩

/-- A zone fills a block if it has every address of the block. -/
theorem Zone.fills_iff_forall_has (z : Zone) (addr : Addr) :
    z.Fills (Slot.ofAddr addr) ↔
      ∀ other, Slot.ofAddr other = Slot.ofAddr addr → z.Has other := by
  have haddr : addr.toNat < 4294967296 := addr.toNat_lt
  simp only [Slot.ofAddr_eq_iff, Zone.Fills, Slot.number_ofAddr]
  show z.start.toNat ≤ addr.toNat / 256 * 256 ∧ (addr.toNat / 256 + 1) * 256 ≤ z.stop ↔
    ∀ other : Addr, other.toNat / 256 = addr.toNat / 256 →
      z.start.toNat ≤ other.toNat ∧ other.toNat < z.stop
  constructor
  · rintro ⟨hfrom, hto⟩ other hblock
    omega
  · intro hall
    -- the first and the last address of the block decide
    have hfirst : (UInt32.ofNat (addr.toNat / 256 * 256)).toNat = addr.toNat / 256 * 256 :=
      UInt32.toNat_ofNat_of_lt' (show _ < 4294967296 by omega)
    have hlast : (UInt32.ofNat (addr.toNat / 256 * 256 + 255)).toNat =
        addr.toNat / 256 * 256 + 255 :=
      UInt32.toNat_ofNat_of_lt' (show _ < 4294967296 by omega)
    have hfrom := (hall _ (by rw [hfirst]; omega)).1
    have hto := (hall _ (by rw [hlast]; omega)).2
    omega

namespace Directory

/-- Makes one block forbidden.  The flag returned is false if its slot needed a page and
no identifier was left for it. -/
def forbidBlock (dir : Directory) (s : Slot) : Bool × Directory :=
  match dir.own s.dir with
  | (none, dir) => (false, dir)
  | (some _, dir) => (true, dir.modifyEntry s fun _ => Entry.forbidden)

/-- Makes blocks forbidden one at a time. -/
def forbidEach (dir : Directory) : List Slot → Except Violation Directory
  | [] => .ok dir
  | s :: slots =>
    match dir.forbidBlock s with
    | (true, dir) => dir.forbidEach slots
    | (false, _) => .error .metadataExhausted

/-- Marking a single block always succeeds and reaches this block only. -/
theorem exists_forbidBlock (dir : Directory) (s : Slot) :
    ∃ after, dir.forbidBlock s = (true, after) ∧
      ∀ t, after.entry t = if s = t then Entry.forbidden else dir.entry t := by
  obtain ⟨id, hid⟩ := dir.exists_own s.dir
  have howned : (dir.own s.dir).2.slots[s.dir].isOwned = true := by
    have hown := dir.isOwned_own s.dir s.dir
    simpa [isOwned] using hown
  refine ⟨_, by rw [forbidBlock, hid], fun t => ?_⟩
  rw [entry_modifyEntry, entry_own]
  simp only [howned, true_and]

/-- No identifier is missing, and exactly the entries of these blocks become forbidden. -/
theorem exists_forbidEach (dir : Directory) (slots : List Slot) :
    ∃ after, dir.forbidEach slots = .ok after ∧
      ∀ t, after.entry t = if t ∈ slots then Entry.forbidden else dir.entry t := by
  induction slots generalizing dir with
  | nil => exact ⟨dir, rfl, fun t => by simp⟩
  | cons s slots ih =>
      obtain ⟨marked, hmarked, hentry⟩ := dir.exists_forbidBlock s
      obtain ⟨after, hafter, hrest⟩ := ih marked
      refine ⟨after, by rw [forbidEach, hmarked]; exact hafter, fun t => ?_⟩
      rw [hrest, hentry]
      by_cases ht : s = t <;> simp [ht, eq_comm]

/-- Sharing the forbidden page does to the entries of a slot what marking all of its
blocks does. -/
theorem exists_forbidEach_ofDirectory (dir : Directory) {d : Fin directorySlots}
    (hshared : dir.isOwned d = false) :
    ∃ after, dir.forbidEach (Slot.ofDirectory d) = .ok after ∧
      ∀ s, after.entry s = (dir.forbid d).entry s := by
  obtain ⟨after, hafter, hentry⟩ := dir.exists_forbidEach (Slot.ofDirectory d)
  have hshared' : dir.slots[d].isOwned = false := hshared
  refine ⟨after, hafter, fun s => ?_⟩
  rw [hentry, entry_forbid]
  simp only [Slot.mem_ofDirectory_iff, hshared', and_true]

end Directory

namespace Table

/-- The table that `reserving` makes, with all blocks marked one at a time. -/
def reservingEach (reserved : List Zone) : Except Violation Table :=
  (Directory.blank.forbidEach ((guardZone :: reserved).flatMap Zone.blocks)).map
    fun dir => ⟨dir, NodePool.empty⟩

/-- A table without regions that has just been made from the zones. -/
structure Starts (zones : List Zone) (t : Table) : Prop where
  /-- An address is forbidden if a single zone, or the zone of the invalid pointer, has
  every address of its block. -/
  forbidden_iff : ∀ addr, (t.standing addr).1 = .forbidden ↔
    ∃ z ∈ guardZone :: zones, ∀ other, Slot.ofAddr other = Slot.ofAddr addr → z.Has other
  /-- All other addresses are untracked. -/
  untracked_iff : ∀ addr, (t.standing addr).1 = .untracked ↔
    ¬ ∃ z ∈ guardZone :: zones, ∀ other, Slot.ofAddr other = Slot.ofAddr addr → z.Has other
  /-- The order of the zones and repetitions do not show. -/
  standing_eq : ∀ others : List Zone, (∀ z, z ∈ others ↔ z ∈ zones) →
    ∃ t', reserving others = .ok t' ∧ ∀ addr, (t'.standing addr).1 = (t.standing addr).1
  /-- Nor does the short cut over whole slots. -/
  standing_eq_each : ∃ t', reservingEach zones = .ok t' ∧
    ∀ addr, (t'.standing addr).1 = (t.standing addr).1

/-- A block is reserved exactly if one of the zones, the guard zone included, has all its
addresses. -/
theorem reserved_ofAddr_iff (zones : List Zone) (addr : Addr) :
    Reserved zones (Slot.ofAddr addr) ↔ ∃ z ∈ guardZone :: zones,
      ∀ other, Slot.ofAddr other = Slot.ofAddr addr → z.Has other := by
  simp only [Reserved, Zone.fills_iff_forall_has]

/-- Without nodes, the entry of its block decides about an address. -/
theorem standing_of_entry {t : Table} {zones : List Zone} (hnodes : t.nodes = NodePool.empty)
    (hentry : ∀ s, t.entry s = if Reserved zones s then Entry.forbidden else Entry.untracked)
    (addr : Addr) :
    (t.standing addr).1 =
      if Reserved zones (Slot.ofAddr addr) then .forbidden else .untracked := by
  have hlinked : t.Linked := linked_of_empty hnodes fun s => by
    rw [hentry]
    split <;> exact ⟨rfl, rfl⟩
  have hvacant : (t.entry (Slot.ofAddr addr)).bounds.isVacant = true := by
    rw [hentry]
    split <;> rfl
  have hfound := (hlinked.find (Slot.ofAddr addr) addr).1
  rw [hlinked.block_of_vacant hvacant, hentry] at hfound
  show Standing.of (t.find (Slot.ofAddr addr) addr).1 = _
  rw [hfound]
  split <;> rfl

/-- In a fresh table every address stands as the zones require. -/
theorem standing_of_reserved (zones : List Zone) :
    ∃ t, reserving zones = .ok t ∧ ∀ addr, (t.standing addr).1 =
      if Reserved zones (Slot.ofAddr addr) then .forbidden else .untracked := by
  obtain ⟨t, ht, hnodes, hentry⟩ := exists_reserving zones
  exact ⟨t, ht, standing_of_entry hnodes hentry⟩

/-- The same holds if the blocks are marked one at a time. -/
theorem standing_of_reservedEach (zones : List Zone) :
    ∃ t, reservingEach zones = .ok t ∧ ∀ addr, (t.standing addr).1 =
      if Reserved zones (Slot.ofAddr addr) then .forbidden else .untracked := by
  obtain ⟨dir, hdir, hentry⟩ :=
    Directory.blank.exists_forbidEach ((guardZone :: zones).flatMap Zone.blocks)
  refine ⟨⟨dir, NodePool.empty⟩, by rw [reservingEach, hdir]; rfl,
    standing_of_entry rfl fun s => ?_⟩
  have hmem : s ∈ (guardZone :: zones).flatMap Zone.blocks ↔ Reserved zones s := by
    simp only [List.mem_flatMap, Zone.mem_blocks_iff, Reserved]
  show dir.entry s = _
  rw [hentry, entry_blank]
  exact if_congr hmem rfl rfl

/-- For every list of zones there is a fresh table, which starts as the zones say.  And in
any directory, pointing a slot without a page of its own at the forbidden page does to the
entries what marking its blocks one at a time does. -/
theorem starts_of_reserving (zones : List Zone) :
    (∃ t, reserving zones = .ok t ∧ Starts zones t) ∧
      ∀ (dir : Directory) (d : Fin directorySlots), dir.isOwned d = false →
        ∃ after, dir.forbidEach (Slot.ofDirectory d) = .ok after ∧
          ∀ s, after.entry s = (dir.forbid d).entry s := by
  refine ⟨?_, fun dir d hshared => dir.exists_forbidEach_ofDirectory hshared⟩
  obtain ⟨t, ht, hstanding⟩ := standing_of_reserved zones
  refine ⟨t, ht, fun addr => ?_, fun addr => ?_, fun others hsame => ?_, ?_⟩
  · rw [hstanding, ← reserved_ofAddr_iff]
    split <;> simp_all
  · rw [hstanding, ← reserved_ofAddr_iff]
    split <;> simp_all
  · obtain ⟨t', ht', hstanding'⟩ := standing_of_reserved others
    refine ⟨t', ht', fun addr => ?_⟩
    have hzones : Reserved others (Slot.ofAddr addr) ↔ Reserved zones (Slot.ofAddr addr) := by
      simp only [Reserved, List.mem_cons, hsame]
    rw [hstanding', hstanding]
    exact if_congr hzones rfl rfl
  · obtain ⟨t', ht', hstanding'⟩ := standing_of_reservedEach zones
    exact ⟨t', ht', fun addr => by rw [hstanding', hstanding]⟩

/-- Of two zones the first fills two blocks and has a part of two others, and the second
runs past the last address and fills whole directory slots.  Listing them the other way
round changes nothing. -/
theorem starts_of_reserving_partial :
    (∃ t t', reserving [⟨0x400080, 0x300⟩, ⟨0xFFF00000, 0xFFFFFFFF⟩] = .ok t ∧
      reserving [⟨0xFFF00000, 0xFFFFFFFF⟩, ⟨0x400080, 0x300⟩] = .ok t' ∧
      (t.standing 0x4000FF).1 = .untracked ∧ (t.standing 0x400100).1 = .forbidden ∧
      (t.standing 0x4002FF).1 = .forbidden ∧ (t.standing 0x400300).1 = .untracked ∧
      (t.standing 0xFFF12345).1 = .forbidden ∧
      ∀ addr, (t'.standing addr).1 = (t.standing addr).1) ∧
    ∃ after, Directory.blank.forbidEach (Slot.ofDirectory 5) = .ok after ∧
      ∀ s, after.entry s = (Directory.blank.forbid 5).entry s := by
  obtain ⟨⟨t, ht, starts⟩, hslot⟩ :=
    starts_of_reserving [⟨0x400080, 0x300⟩, ⟨0xFFF00000, 0xFFFFFFFF⟩]
  obtain ⟨t', ht', hsame⟩ := starts.standing_eq [⟨0xFFF00000, 0xFFFFFFFF⟩, ⟨0x400080, 0x300⟩]
    fun z => by simp [or_comm]
  have hforbidden := fun addr => (starts.forbidden_iff addr).trans (reserved_ofAddr_iff _ addr).symm
  have huntracked := fun addr =>
    (starts.untracked_iff addr).trans (not_congr (reserved_ofAddr_iff _ addr).symm)
  refine ⟨⟨t, t', ht, ht', ?_, ?_, ?_, ?_, ?_, hsame⟩, hslot _ 5 ?_⟩
  · exact (huntracked _).2 (by decide)
  · exact (hforbidden _).2 (by decide)
  · exact (hforbidden _).2 (by decide)
  · exact (huntracked _).2 (by decide)
  · exact (hforbidden _).2 (by decide)
  · simp [Directory.isOwned, Directory.blank, Backing.isOwned]

end Table

end RegionGuard
