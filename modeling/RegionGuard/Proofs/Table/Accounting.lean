import RegionGuard.Proofs.Table.Live

/-!
# The books of the table

A table that tracks the live regions keeps its books.  Each block lists exactly the
live regions that touch it, entries without a region are the sentinels they were at
first, pages have one slot each, and slots without a page have nothing to hold.  The
nodes are accounted for one by one: each is behind one block or free, so the used
ones are as many as the blocks list regions behind their entries, and the free ones
are those on the free list.
-/

namespace RegionGuard

namespace Table

/-- How a table with the given live regions stands, compared with the fresh table
that it was once. -/
structure WellKept (t fresh : Table) (live : Set Bounds) : Prop where
  /-- A block lists the live regions that touch it. -/
  mem_regionsAt_iff : ∀ addr b, b ∈ t.regionsAt addr ↔ b ∈ live ∧ b.Meets (Slot.ofAddr addr)
  /-- It lists none of them twice. -/
  nodup_regionsAt : ∀ addr, (t.regionsAt addr).Nodup
  /-- An entry without a region is the sentinel of its block and leads nowhere. -/
  vacant : ∀ s, (t.entry s).bounds.isVacant = true →
    (t.entry s).next = none ∧ (t.entry s).bounds = (t.entry s).fallback
  /-- The mark of a block, which decides about its sentinel, is the first one. -/
  isForbidden_eq : ∀ s, (t.entry s).isForbidden = (fresh.entry s).isForbidden
  /-- A page belongs to one slot. -/
  exists_unique_owner : ∀ i < t.counts.ownedPages, ∃! d : Fin directorySlots,
    t.directory.slots.get d = .owned ⟨i⟩
  /-- The blocks of a slot without a page are not touched. -/
  not_meets_of_shared : ∀ s, t.directory.isOwned s.dir = false → ∀ b ∈ live, ¬ b.Meets s
  /-- Following the links from an entry, or from the head of the free list, ends. -/
  leads : ∀ place, t.nodes.Leads (t.firstNode place) (t.nodesAt place)
  /-- A node of the pool is met from one entry, or else from the head of the free list. -/
  exists_unique_place : ∀ id : NodeId, id.index < t.nodes.nodes.size →
    ∃! place, id ∈ t.nodesAt place
  /-- The nodes in use are as many as regions are listed behind the entries. -/
  liveNodes_eq : t.counts.liveNodes =
    ∑ n ∈ Finset.range blockCount, ((t.regionsAt (Slot.ofBlock n).firstAddr).length - 1)
  /-- No node is on the free list twice. -/
  nodup_free : (t.nodesAt .free).Nodup
  /-- The free list is as long as the count of free nodes says. -/
  freeNodes_eq : t.counts.freeNodes = (t.nodesAt .free).length
  /-- No free node is met from an entry. -/
  not_behind_of_free : ∀ id ∈ t.nodesAt .free, ∀ s, id ∉ t.nodesAt (.behind s)

variable {fresh t : Table} {zones : List Zone} {live : Set Bounds}

/-- The directory is built so that a page has an owner and no two slots share it. -/
theorem exists_unique_owner (dir : Directory) {i : Nat} (hi : i < dir.pages.size) :
    ∃! d : Fin directorySlots, dir.slots[d] = .owned ⟨i⟩ := by
  obtain ⟨d, hd⟩ := dir.owned_surj i hi
  exact ⟨d, hd, fun e he => dir.owned_inj e d ⟨i⟩ he hd⟩

/-- A block that a live region touches has that region in its entry or behind it, so
its slot owns a page. -/
theorem Tracks.isOwned_of_meets (h : t.Tracks zones live) {b : Bounds} (hb : b ∈ live) {s : Slot}
    (hmeets : b.Meets s) : t.directory.isOwned s.dir = true := by
  have hmem : b ∈ (t.block s).regions := (h.mem_iff s b).mpr ⟨hb, hmeets⟩
  cases hheld : (t.entry s).bounds.isVacant with
  | true =>
      rw [h.linked.block_of_vacant hheld] at hmem
      cases hmem
  | false => exact isOwned_of_held hheld

/-- The node of an identifier in the pool is at one place. -/
theorem Tracks.exists_unique_place (h : t.Tracks zones live) {id : NodeId}
    (hid : id.index < t.nodes.nodes.size) : ∃! place, id ∈ t.nodesAt place := by
  obtain ⟨place, hat⟩ := h.lossFree id hid
  exact ⟨place, hat, fun other hother => h.linked.apart hother hat⟩

/-- The used nodes, counted by what the blocks list. -/
theorem Tracks.liveNodes_eq (h : t.Tracks zones live) :
    t.counts.liveNodes =
      ∑ n ∈ Finset.range blockCount, ((t.regionsAt (Slot.ofBlock n).firstAddr).length - 1) := by
  calc t.counts.liveNodes
      = ∑ n ∈ Finset.range blockCount, (t.nodesAt (.behind (Slot.ofBlock n))).length :=
        h.linked.usedCount_eq h.lossFree
    _ = ∑ n ∈ Finset.range blockCount, ((t.block (Slot.ofBlock n)).regions.length - 1) :=
        Finset.sum_congr rfl fun n _ => h.linked.length_nodesAt _

/-- No node is in use exactly as long as no block is shared. -/
theorem Tracks.liveNodes_eq_zero_iff (h : t.Tracks zones live) :
    t.counts.liveNodes = 0 ↔ ∀ s, ∀ a ∈ live, ∀ b ∈ live, a.Meets s → b.Meets s → a = b := by
  have halone : ∀ s, (t.block s).regions.length ≤ 1 ↔
      ∀ a ∈ live, ∀ b ∈ live, a.Meets s → b.Meets s → a = b := by
    intro s
    rw [← List.toFinset_card_of_nodup (h.nodup s), Finset.card_le_one]
    simp only [List.mem_toFinset, h.mem_iff]
    exact ⟨fun hall a ha b hb hmeets hmeets' => hall a ⟨ha, hmeets⟩ b ⟨hb, hmeets'⟩,
      fun hall a ha b hb => hall a ha.1 b hb.1 ha.2 hb.2⟩
  rw [h.liveNodes_eq, Finset.sum_eq_zero_iff]
  constructor
  · intro hzero s
    have hterm := hzero s.number (Finset.mem_range.mpr s.number_lt)
    rw [Slot.ofBlock_number, ← regions_block, Slot.ofAddr_firstAddr] at hterm
    exact (halone s).mp (Nat.le_of_sub_eq_zero hterm)
  · intro hall n _
    rw [← regions_block, Slot.ofAddr_firstAddr]
    exact Nat.sub_eq_zero_of_le ((halone _).mpr (hall _))

/-- Two tables with the same zones have the same marks, whatever is live in them. -/
theorem Tracks.isForbidden_eq (h : t.Tracks zones live) {regions : Set Bounds}
    (h' : fresh.Tracks zones regions) (s : Slot) :
    (t.entry s).isForbidden = (fresh.entry s).isForbidden :=
  Bool.eq_iff_iff.mpr ((h.mark_iff s).trans (h'.mark_iff s).symm)

/-- A table that tracks the live regions keeps its books. -/
theorem Tracks.wellKept (h : t.Tracks zones live) (hfresh : reserving zones = .ok fresh) :
    t.WellKept fresh live where
  mem_regionsAt_iff addr b := by
    rw [← regions_block]
    exact h.mem_iff _ b
  nodup_regionsAt addr := by
    rw [← regions_block]
    exact h.nodup _
  vacant s hvacant := (h.linked.vacant s hvacant).symm
  isForbidden_eq := h.isForbidden_eq (tracks_of_reserving hfresh)
  exists_unique_owner i hi := Table.exists_unique_owner t.directory hi
  not_meets_of_shared s hshared b hb hmeets := by
    rw [h.isOwned_of_meets hb hmeets] at hshared
    cases hshared
  leads := h.linked.leads
  exists_unique_place id := h.exists_unique_place
  liveNodes_eq := h.liveNodes_eq
  nodup_free := (h.linked.leads .free).nodup
  freeNodes_eq := h.linked.freeCount_eq
  not_behind_of_free id hfree s hbehind := by
    cases h.linked.apart hfree hbehind

/-- The books are kept in every state that a fair run can bring a fresh table to. -/
theorem wellKept_of_run (hfresh : reserving zones = .ok fresh) {ops : List Op}
    (hrun : system.Run (fresh, ∅) ops (t, live)) : t.WellKept fresh live := by
  have hreached : Reached zones t live := ⟨fresh, ops, hfresh, hrun⟩
  exact hreached.tracks.wellKept hfresh

/-- Two regions share one block and nothing else, so there is one node. -/
theorem wellKept_of_run_pair :
    ∃ t : Table, (∀ b, b ∈ t.regionsAt 0x1000 ↔ b = ⟨0x1020, 0x400⟩ ∨ b = ⟨0x1000, 16⟩) ∧
      (t.regionsAt 0x1000).length = 2 ∧ t.counts.liveNodes = 1 := by
  obtain ⟨t, fresh, ops, hfresh, hrun⟩ := exists_reached_pair
  have h := wellKept_of_run hfresh hrun
  have hshared : ∀ b, b ∈ t.regionsAt 0x1000 ↔ b = ⟨0x1020, 0x400⟩ ∨ b = ⟨0x1000, 16⟩ := by
    intro b
    rw [h.mem_regionsAt_iff, Set.mem_insert_iff, Set.mem_singleton_iff]
    refine and_iff_left_of_imp fun hb => ?_
    rcases hb with rfl | rfl
    · exact ⟨0x1020, by decide, by decide⟩
    · exact ⟨0x1000, by decide, by decide⟩
  have hlength : (t.regionsAt 0x1000).length = 2 := by
    have hperm : (t.regionsAt 0x1000).Perm [⟨0x1020, 0x400⟩, ⟨0x1000, 16⟩] := by
      rw [List.perm_ext_iff_of_nodup (h.nodup_regionsAt _) (by decide)]
      intro b
      rw [hshared]
      simp
    exact hperm.length_eq
  -- no block but the shared one is touched by the smaller region
  have hother : ∀ n ∈ Finset.range blockCount, n ≠ 16 →
      (t.regionsAt (Slot.ofBlock n).firstAddr).length - 1 = 0 := by
    intro n hn hne
    have hsub : t.regionsAt (Slot.ofBlock n).firstAddr ⊆ [⟨0x1020, 0x400⟩] := by
      intro b hb
      obtain ⟨hlive, hmeets⟩ := (h.mem_regionsAt_iff _ b).mp hb
      rw [Slot.ofAddr_firstAddr] at hmeets
      rcases hlive with rfl | rfl
      · exact List.mem_singleton_self _
      · have hfits : Bounds.Fits ⟨0x1000, 16⟩ := by decide
        rw [hfits.meets_iff, Slot.number_ofBlock (Finset.mem_range.mp hn)] at hmeets
        obtain ⟨hfrom, hto⟩ := hmeets
        exact absurd (Nat.le_antisymm hto hfrom) hne
    have hone := (h.nodup_regionsAt _).length_le_of_subset hsub
    exact Nat.sub_eq_zero_of_le hone
  refine ⟨t, hshared, hlength, ?_⟩
  rw [h.liveNodes_eq, Finset.sum_eq_single_of_mem 16 (Finset.mem_range.mpr (by decide)) hother]
  have hfirst : (Slot.ofBlock 16).firstAddr = 0x1000 := by decide
  rw [hfirst, hlength]

end Table

end RegionGuard
