import RegionGuard.Proofs.Table.Blocks
import RegionGuard.Proofs.Table.Room
import RegionGuard.Proofs.Table.Separate

/-!
# The table as a set of regions

A table `Tracks` a set of live regions if every block lists exactly the live
regions that touch it, each once, and is marked as its zones say.  This holds of a
fresh table for no regions, a look-up keeps it, a registration of a region apart
from the live ones adds that region, and a removal takes one out.  In a table that
tracks its regions an address has at most one region, which any look-up finds, and
nodes cannot run out.
-/

namespace RegionGuard

/-- The sentinel of a block that one of the zones may fill. -/
def sentinelOf (zones : List Zone) (s : Slot) : Bounds :=
  if Reserved zones s then Bounds.forbidden else Bounds.untracked

namespace Table

/-- The blocks list the live regions, and the zones decide what the rest is. -/
structure Tracks (t : Table) (zones : List Zone) (live : Set Bounds) : Prop where
  linked : t.Linked
  lossFree : t.LossFree
  separate : Separate live
  nodup : ∀ s, (t.block s).regions.Nodup
  mem_iff : ∀ s b, b ∈ (t.block s).regions ↔ b ∈ live ∧ b.Meets s
  mark_iff : ∀ s, (t.block s).isForbidden = true ↔ Reserved zones s

variable {t after : Table} {zones : List Zone} {live : Set Bounds}

/-- What a block falls back to is decided by the zones. -/
theorem Tracks.fallback_eq (h : t.Tracks zones live) (s : Slot) :
    (t.block s).fallback = sentinelOf zones s := by
  rw [Block.fallback, sentinelOf]
  exact if_congr (h.mark_iff s) rfl rfl

/-- An entry falls back to untracked memory exactly if no zone fills its block. -/
theorem Tracks.fallback_eq_untracked_iff (h : t.Tracks zones live) (s : Slot) :
    (t.entry s).fallback = Bounds.untracked ↔ ¬ Reserved zones s := by
  have hfallback : (t.entry s).fallback = sentinelOf zones s := h.fallback_eq s
  rw [hfallback, sentinelOf]
  by_cases hreserved : Reserved zones s <;> simp [hreserved]

/-- The room that a registration needs is always there. -/
theorem Tracks.room (h : t.Tracks zones live) : t.nodes.usedCount + 1 < idLimit := by
  have hused := h.linked.usedCount_le h.lossFree fun s =>
    h.separate.length_le (h.nodup s) fun b hb => (h.mem_iff s b).mp hb
  have hlimit : (blockSize - 1) * blockCount + 1 < idLimit := by decide
  omega

/-- The order of the regions in the blocks does not matter. -/
theorem Tracks.of_perm (h : t.Tracks zones live) (hlinked : after.Linked)
    (hfull : after.LossFree) (hperm : ∀ s, (after.block s).regions.Perm (t.block s).regions)
    (hmark : ∀ s, (after.block s).isForbidden = (t.block s).isForbidden) :
    after.Tracks zones live where
  linked := hlinked
  lossFree := hfull
  separate := h.separate
  nodup s := (hperm s).nodup_iff.mpr (h.nodup s)
  mem_iff s b := (hperm s).mem_iff.trans (h.mem_iff s b)
  mark_iff s := by
    rw [hmark]
    exact h.mark_iff s

/-! ## Fresh tables -/

/-- A fresh table tracks no regions. -/
theorem tracks_of_reserving (hreserving : reserving zones = .ok t) : t.Tracks zones ∅ := by
  obtain ⟨t', ht', hnodes, hlinked, hblock⟩ := exists_linked_reserving zones
  obtain rfl : t' = t := Except.ok.inj (ht'.symm.trans hreserving)
  refine ⟨hlinked, fun id hid => ?_, .empty, fun s => ?_, fun s b => ?_, fun s => ?_⟩
  · rw [hnodes] at hid
    cases hid
  · rw [hblock]
    exact List.nodup_nil
  · simp [hblock, Blocks.reserving]
  · simp [hblock, Blocks.reserving]

/-! ## Looking up -/

/-- A search reorders the regions of a block, and the table tracks the same ones as before. -/
theorem Tracks.find (h : t.Tracks zones live) (s : Slot) (addr : Addr) :
    (t.find s addr).2.Tracks zones live := by
  obtain ⟨-, hbecomes⟩ := h.linked.find s addr
  refine h.of_perm hbecomes.linked (hbecomes.lossFree h.lossFree) (fun s' => ?_) fun s' => ?_
  · rw [hbecomes.block_eq]
    by_cases hs : s' = s
    · subst hs
      rw [Function.update_self]
      exact Block.find_perm _ _
    · rw [Function.update_of_ne hs]
  · rw [hbecomes.block_eq]
    by_cases hs : s' = s
    · subst hs
      rw [Function.update_self, Block.isForbidden_find]
    · rw [Function.update_of_ne hs]

theorem Tracks.lookup (h : t.Tracks zones live) (addr : Addr) :
    (t.lookup addr).2.Tracks zones live :=
  h.find _ _

/-- The regions of a block that have one of its addresses are the live regions
with that address. -/
theorem Tracks.mem_block_iff (h : t.Tracks zones live) {b : Bounds} {addr : Addr} :
    b ∈ (t.block (Slot.ofAddr addr)).regions ∧ b.contains addr = true ↔
      b ∈ live ∧ b.Spans addr := by
  rw [h.mem_iff]
  constructor
  · rintro ⟨⟨hlive, -⟩, hcontains⟩
    exact ⟨hlive, (h.separate.fits b hlive).contains_iff.mp hcontains⟩
  · intro ⟨hlive, hspans⟩
    exact ⟨⟨hlive, addr, hspans, rfl⟩, (h.separate.fits b hlive).contains_iff.mpr hspans⟩

/-- A look-up of an address in a live region finds this region; there is no other one with the
address. -/
theorem Tracks.lookup_of_spans (h : t.Tracks zones live) {b : Bounds} (hb : b ∈ live)
    {addr : Addr} (hspans : b.Spans addr) : (t.lookup addr).1 = b := by
  obtain ⟨hmem, hcontains⟩ := h.mem_block_iff.mpr ⟨hb, hspans⟩
  rw [Table.lookup, (h.linked.find _ addr).1]
  rcases (t.block (Slot.ofAddr addr)).fst_find addr with hfound | ⟨hno, -⟩
  · obtain ⟨hlive, hspans'⟩ := h.mem_block_iff.mp hfound
    exact h.separate.eq_of_spans hlive hb hspans' hspans
  · rw [hno b hmem] at hcontains
    cases hcontains

/-- Otherwise it finds the sentinel of the block. -/
theorem Tracks.lookup_of_none (h : t.Tracks zones live) {addr : Addr}
    (hno : ∀ b ∈ live, ¬ b.Spans addr) :
    (t.lookup addr).1 = sentinelOf zones (Slot.ofAddr addr) := by
  rw [Table.lookup, (h.linked.find _ addr).1]
  rcases (t.block (Slot.ofAddr addr)).fst_find addr with hfound | ⟨-, hfallback⟩
  · obtain ⟨hlive, hspans⟩ := h.mem_block_iff.mp hfound
    exact absurd hspans (hno _ hlive)
  · rw [hfallback, h.fallback_eq]

/-- A sentinel is told from a region by its start, which is 0. -/
theorem sentinelOf_isVacant (zones : List Zone) (s : Slot) :
    (sentinelOf zones s).isVacant = true := by
  unfold sentinelOf
  split <;> rfl

/-- No live region starts at 0, so none is taken for a sentinel. -/
theorem Tracks.isVacant_of_mem (h : t.Tracks zones live) {b : Bounds} (hb : b ∈ live) :
    b.isVacant = false :=
  Bounds.isVacant_of_start_ne (h.separate.start_ne b hb)

/-- A look-up tells whether a live region starts at the address. -/
theorem Tracks.lookup_start (h : t.Tracks zones live) {addr : Addr}
    (hno : ∀ b ∈ live, b.start ≠ addr) :
    ((t.lookup addr).1.isVacant || (t.lookup addr).1.start != addr) = true := by
  by_cases hspans : ∃ b ∈ live, b.Spans addr
  · obtain ⟨b, hb, hspans⟩ := hspans
    rw [h.lookup_of_spans hb hspans]
    simp [hno b hb]
  · push Not at hspans
    rw [h.lookup_of_none hspans, sentinelOf_isVacant]
    rfl

/-- A live region is recognised at its start. -/
theorem Tracks.lookup_start_of_mem (h : t.Tracks zones live) {b : Bounds} (hb : b ∈ live) :
    ((t.lookup b.start).1.isVacant || (t.lookup b.start).1.start != b.start) = false := by
  rw [h.lookup_of_spans hb (Bounds.spans_start b), h.isVacant_of_mem hb]
  simp

/-! ## Registering -/

/-- Blocks strictly inside a region have no region that is apart from it. -/
theorem Tracks.regions_of_encloses (h : t.Tracks zones live) {b : Bounds} (hfits : b.Fits)
    {s : Slot} (hs : b.Encloses s) {r : Bounds} (hr : r ∈ (t.block s).regions) : ¬ r.Apart b := by
  intro hapart
  obtain ⟨-, addr, hspans, hblock⟩ := (h.mem_iff s r).mp hr
  exact hapart addr ⟨hspans, hfits.spans_of_encloses hs hblock⟩

/-- The blocks between the ends of a new region list nothing yet, since every address of theirs
will be in it. -/
theorem Tracks.regions_eq_nil (h : t.Tracks zones live) {b : Bounds} (hfits : b.Fits)
    (hapart : ∀ r ∈ live, r.Apart b) {s : Slot} (hs : b.Encloses s) :
    (t.block s).regions = [] := by
  rw [List.eq_nil_iff_forall_not_mem]
  intro r hr
  exact h.regions_of_encloses hfits hs hr (hapart r ((h.mem_iff s r).mp hr).1)

/-- Hence making it the only region of such a block is the same as putting it in front. -/
theorem Tracks.enter_eq (h : t.Tracks zones live) {b : Bounds} (hfits : b.Fits)
    (hapart : ∀ r ∈ live, r.Apart b) {s : Slot} (hs : b.Meets s) :
    Block.enter b t.block s = (t.block s).push b := by
  rw [Block.enter, Block.along]
  rcases hfits.meets_iff_endsIn_or_encloses.mp hs with hends | hencloses
  · rw [if_pos hends]
  · have hends : ¬ b.EndsIn s := fun hends => hends.not_encloses hencloses
    rw [if_neg hends, if_pos hencloses, Block.hold, Block.push,
      h.regions_eq_nil hfits hapart hencloses]

theorem along_of_not_meets {b : Bounds} (hfits : b.Fits) {s : Slot} (hs : ¬ b.Meets s)
    (atEnds between : Block → Block) (blocks : Slot → Block) :
    Block.along b atEnds between blocks s = blocks s := by
  have hout : ¬ (b.EndsIn s ∨ b.Encloses s) := fun h =>
    hs (hfits.meets_iff_endsIn_or_encloses.mpr h)
  rw [Block.along, if_neg fun h => hout (.inl h), if_neg fun h => hout (.inr h)]

/-- A region that fits and is apart from the live ones is registered and becomes live. -/
theorem Tracks.register (h : t.Tracks zones live) {start : Addr} {size : UInt32}
    (hstart : start ≠ 0) (hfits : Bounds.Fits ⟨start, size⟩)
    (hapart : ∀ r ∈ live, r.Apart ⟨start, size⟩) :
    ∃ after, t.register start size = (.ok (), after) ∧
      after.Tracks zones (insert ⟨start, size⟩ live) := by
  let b : Bounds := ⟨start, size⟩
  obtain ⟨after, hafter, hlinked, hblock, hfull, -⟩ := h.linked.register hstart hfits h.room
  have hin : ∀ s, b.Meets s → after.block s = (t.block s).push b := fun s hs => by
    rw [hblock]
    exact h.enter_eq hfits hapart hs
  have hout : ∀ s, ¬ b.Meets s → after.block s = t.block s := fun s hs => by
    rw [hblock]
    exact along_of_not_meets hfits hs _ _ _
  have hnew : ∀ s, b ∉ (t.block s).regions := fun s hb =>
    hapart b ((h.mem_iff s b).mp hb).1 b.start ⟨Bounds.spans_start b, Bounds.spans_start b⟩
  refine ⟨after, hafter, hlinked, hfull (fun s hs => ?_) h.lossFree,
    h.separate.insert hstart hfits hapart, fun s => ?_, fun s r => ?_, fun s => ?_⟩
  · rw [h.regions_eq_nil hfits hapart hs]
    exact Nat.zero_le 1
  · by_cases hs : b.Meets s
    · rw [hin s hs]
      exact List.nodup_cons.mpr ⟨hnew s, h.nodup s⟩
    · rw [hout s hs]
      exact h.nodup s
  · by_cases hs : b.Meets s
    · rw [hin s hs, Block.push, List.mem_cons, h.mem_iff, Set.mem_insert_iff]
      constructor
      · rintro (rfl | ⟨hr, hmeets⟩)
        · exact ⟨.inl rfl, hs⟩
        · exact ⟨.inr hr, hmeets⟩
      · rintro ⟨rfl | hr, hmeets⟩
        · exact .inl rfl
        · exact .inr ⟨hr, hmeets⟩
    · rw [hout s hs, h.mem_iff, Set.mem_insert_iff]
      constructor
      · intro ⟨hr, hmeets⟩
        exact ⟨.inr hr, hmeets⟩
      · rintro ⟨rfl | hr, hmeets⟩
        · exact absurd hmeets hs
        · exact ⟨hr, hmeets⟩
  · have hmark : (after.block s).isForbidden = (t.block s).isForbidden := by
      by_cases hs : b.Meets s
      · rw [hin s hs, Block.push]
      · rw [hout s hs]
    rw [hmark]
    exact h.mark_iff s

/-- Nothing but the two checks makes a registration fail, whether or not the
region is apart from the live ones. -/
theorem Tracks.fst_register (h : t.Tracks zones live) (start : Addr) (size : UInt32) :
    (t.register start size).1 =
      if start = 0 then .error .nullRegion
      else if addressCount ≤ start.toNat + size.toNat then .error (.regionOverflow start size)
      else .ok () := by
  by_cases hstart : start = 0
  · rw [Table.register, if_pos hstart, if_pos hstart]
  · by_cases hfits : addressCount ≤ start.toNat + size.toNat
    · rw [Table.register, if_neg hstart, if_pos hfits, if_neg hstart, if_pos hfits]
    · obtain ⟨after, hafter, -⟩ := h.linked.register hstart (Nat.lt_of_not_le hfits) h.room
      rw [hafter, if_neg hstart, if_neg hfits]

/-! ## Removing -/

/-- Removing a live region takes just this one out of every block, whatever is done with blocks
at its ends and between. -/
theorem Tracks.mem_leave_iff (h : t.Tracks zones live) {b : Bounds} (hb : b ∈ live) (s : Slot)
    (r : Bounds) :
    r ∈ (Block.leave b t.block s).regions ↔ r ∈ (t.block s).regions ∧ r ≠ b := by
  have hfits := h.separate.fits b hb
  by_cases hs : b.Meets s
  · rw [Block.leave, Block.along]
    rcases hfits.meets_iff_endsIn_or_encloses.mp hs with hends | hencloses
    · obtain ⟨front, back, hsplit⟩ := List.append_of_mem ((h.mem_iff s b).mpr ⟨hb, hs⟩)
      have hnodup : (b :: (front ++ back)).Nodup := by
        have hnodup := h.nodup s
        rw [hsplit] at hnodup
        exact List.perm_middle.nodup_iff.mp hnodup
      have hmem := (List.nodup_cons.mp hnodup).1
      have hfront : ∀ r ∈ front, ¬ r.start = b.start := fun r hr hstart => by
        have hlive : r ∈ live := ((h.mem_iff s r).mp (by simp [hsplit, hr])).1
        exact hmem (List.mem_append_left _ (h.separate.eq_of_start hlive hb hstart ▸ hr))
      have hdrop : ((t.block s).drop b.start).regions = front ++ back := by
        have hblock : t.block s = ⟨front ++ b :: back, (t.block s).isForbidden⟩ := by rw [← hsplit]
        rw [hblock, Block.drop_of_split hfront rfl]
      rw [if_pos hends, hdrop, hsplit]
      constructor
      · intro hr
        refine ⟨?_, fun heq => hmem (heq ▸ hr)⟩
        rcases List.mem_append.mp hr with hr | hr <;> simp [hr]
      · rintro ⟨hr, hne⟩
        rcases List.mem_cons.mp (List.perm_middle.mem_iff.mp hr) with rfl | hr
        · exact absurd rfl hne
        · exact hr
    · have hends : ¬ b.EndsIn s := fun hends => hends.not_encloses hencloses
      rw [if_neg hends, if_pos hencloses, Block.vacate]
      constructor
      · intro hr
        cases hr
      · rintro ⟨hr, hne⟩
        have hlive := ((h.mem_iff s r).mp hr).1
        exact absurd (h.separate.apart hlive hb hne) (h.regions_of_encloses hfits hencloses hr)
  · rw [Block.leave, along_of_not_meets hfits hs]
    constructor
    · intro hr
      exact ⟨hr, fun heq => hs (heq ▸ ((h.mem_iff s r).mp hr).2)⟩
    · exact And.left

/-- What is left of a block keeps its order. -/
theorem sublist_leave (b : Bounds) (blocks : Slot → Block) (s : Slot) :
    (Block.leave b blocks s).regions.Sublist (blocks s).regions := by
  rw [Block.leave, Block.along]
  split
  · exact List.eraseP_sublist
  · split
    · exact List.nil_sublist _
    · exact List.Sublist.refl _

theorem isForbidden_leave (b : Bounds) (blocks : Slot → Block) (s : Slot) :
    (Block.leave b blocks s).isForbidden = (blocks s).isForbidden := by
  rw [Block.leave, Block.along]
  split
  · rfl
  · split <;> rfl

/-- Taking a live region out of its blocks leaves a table that tracks the others. -/
theorem Tracks.detachRange (h : t.Tracks zones live) {b : Bounds} (hb : b ∈ live) :
    (t.detachRange (Slot.ofAddr b.start) (Slot.ofAddr b.stop) b.start).Tracks zones
      (live \ {b}) := by
  obtain ⟨hlinked, hblock, hfull⟩ := h.linked.detachRange b
  have hfits := h.separate.fits b hb
  refine ⟨hlinked, hfull (fun s hs => ?_) h.lossFree, h.separate.mono Set.sdiff_subset,
    fun s => ?_, fun s r => ?_, fun s => ?_⟩
  · -- only the region itself can be in a block that it encloses
    have hall : ∀ r ∈ (t.block s).regions, r = b := fun r hr => by
      by_contra hne
      exact h.regions_of_encloses hfits hs hr
        (h.separate.apart ((h.mem_iff s r).mp hr).1 hb hne)
    rw [← List.toFinset_card_of_nodup (h.nodup s), Finset.card_le_one]
    intro a ha r hr
    rw [hall a (List.mem_toFinset.mp ha), hall r (List.mem_toFinset.mp hr)]
  · rw [hblock]
    exact (h.nodup s).sublist (sublist_leave b t.block s)
  · rw [hblock, h.mem_leave_iff hb, h.mem_iff, Set.mem_sdiff, Set.mem_singleton_iff]
    constructor
    · intro ⟨⟨hr, hmeets⟩, hne⟩
      exact ⟨⟨hr, hne⟩, hmeets⟩
    · intro ⟨⟨hr, hne⟩, hmeets⟩
      exact ⟨⟨hr, hmeets⟩, hne⟩
  · rw [hblock, isForbidden_leave]
    exact h.mark_iff s

/-- A live region is removed by its start. -/
theorem Tracks.unregister_of_mem (h : t.Tracks zones live) {b : Bounds} (hb : b ∈ live) :
    ∃ after, t.unregister b.start = (.ok (), after) ∧ after.Tracks zones (live \ {b}) := by
  rw [unregister_eq, h.lookup_start_of_mem hb, if_neg (by simp),
    h.lookup_of_spans hb (Bounds.spans_start b)]
  exact ⟨_, rfl, (h.lookup b.start).detachRange hb⟩

/-- No other address is the start of a region to be removed, and the refusal changes no list but
its order. -/
theorem Tracks.unregister_of_none (h : t.Tracks zones live) {start : Addr}
    (hno : ∀ b ∈ live, b.start ≠ start) :
    ∃ after, t.unregister start = (.error (.invalidRemoval start), after) ∧
      after.Tracks zones live := by
  rw [unregister_eq, if_pos (h.lookup_start hno)]
  exact ⟨_, rfl, h.lookup start⟩

end Table

end RegionGuard
