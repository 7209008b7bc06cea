import RegionGuard.Proofs.Table.Linking
import Mathlib.Algebra.Order.BigOperators.Group.Finset

/-!
# Counting the nodes

In a table without losses every node is behind exactly one block or free, so the
number of used nodes is the sum over all blocks of the nodes behind them.
-/

namespace RegionGuard

namespace Table

variable {t : Table}

/-- The positions in the pool of the nodes at a place. -/
def positionsAt (t : Table) (place : NodePlace) : Finset Nat :=
  ((t.nodesAt place).map NodeId.index).toFinset

theorem mem_positionsAt {place : NodePlace} {i : Nat} :
    i ∈ t.positionsAt place ↔ (⟨i⟩ : NodeId) ∈ t.nodesAt place := by
  rw [positionsAt, List.mem_toFinset, List.mem_map]
  constructor
  · rintro ⟨⟨j⟩, hj, rfl⟩
    exact hj
  · intro h
    exact ⟨⟨i⟩, h, rfl⟩

/-- No node stands twice at a place, so its positions are as many as its nodes. -/
theorem Linked.card_positionsAt (h : t.Linked) (place : NodePlace) :
    (t.positionsAt place).card = (t.nodesAt place).length := by
  have hinj : Function.Injective NodeId.index := by
    intro ⟨i⟩ ⟨j⟩ heq
    exact congrArg NodeId.mk heq
  have hnodup := (h.leads place).nodup.map hinj
  rw [positionsAt, List.toFinset_card_of_nodup hnodup, List.length_map]

/-- No node is at two places. -/
theorem Linked.disjoint_positionsAt (h : t.Linked) {p q : NodePlace} (hne : p ≠ q) :
    Disjoint (t.positionsAt p) (t.positionsAt q) := by
  rw [Finset.disjoint_left]
  intro i hp hq
  exact hne (h.apart (mem_positionsAt.mp hp) (mem_positionsAt.mp hq))

/-- The positions of all nodes behind blocks. -/
def usedPositions (t : Table) : Finset Nat :=
  (Finset.range blockCount).biUnion fun n => t.positionsAt (.behind (Slot.ofBlock n))

/-- Free and used positions together are all that the pool has. -/
theorem Linked.range_size (h : t.Linked) (hfull : t.LossFree) :
    Finset.range t.nodes.nodes.size = t.positionsAt .free ∪ t.usedPositions := by
  ext i
  rw [Finset.mem_range, Finset.mem_union, usedPositions, Finset.mem_biUnion]
  constructor
  · intro hi
    obtain ⟨s | _, hat⟩ := hfull ⟨i⟩ hi
    · refine .inr ⟨s.number, Finset.mem_range.mpr s.number_lt, ?_⟩
      rw [Slot.ofBlock_number]
      exact mem_positionsAt.mpr hat
    · exact .inl (mem_positionsAt.mpr hat)
  · rintro (hfree | ⟨n, -, hbehind⟩)
    · exact (h.leads _).lt ⟨i⟩ (mem_positionsAt.mp hfree)
    · exact (h.leads _).lt ⟨i⟩ (mem_positionsAt.mp hbehind)

/-- The used positions are counted block by block. -/
theorem Linked.card_usedPositions (h : t.Linked) :
    t.usedPositions.card =
      ∑ n ∈ Finset.range blockCount, (t.nodesAt (.behind (Slot.ofBlock n))).length := by
  rw [usedPositions, Finset.card_biUnion]
  · exact Finset.sum_congr rfl fun n _ => h.card_positionsAt _
  · intro m hm n hn hne
    refine h.disjoint_positionsAt fun heq => hne ?_
    have hnumber := congrArg Slot.number (NodePlace.behind.inj heq)
    rwa [Slot.number_ofBlock (Finset.mem_range.mp hm),
      Slot.number_ofBlock (Finset.mem_range.mp hn)] at hnumber

/-- The used nodes are those behind the blocks. -/
theorem Linked.usedCount_eq (h : t.Linked) (hfull : t.LossFree) :
    t.nodes.usedCount =
      ∑ n ∈ Finset.range blockCount, (t.nodesAt (.behind (Slot.ofBlock n))).length := by
  have hdisjoint : Disjoint (t.positionsAt .free) t.usedPositions := by
    rw [usedPositions, Finset.disjoint_biUnion_right]
    intro n _
    exact h.disjoint_positionsAt (by simp)
  have hsize : t.nodes.nodes.size = t.nodes.freeCount + t.usedPositions.card := by
    rw [← Finset.card_range t.nodes.nodes.size, h.range_size hfull,
      Finset.card_union_of_disjoint hdisjoint, h.card_positionsAt, h.freeCount_eq]
  rw [NodePool.usedCount, hsize, Nat.add_sub_cancel_left, h.card_usedPositions]

/-- The nodes behind a block hold all of its regions but one. -/
theorem Linked.length_nodesAt (h : t.Linked) (s : Slot) :
    (t.nodesAt (.behind s)).length = (t.block s).regions.length - 1 := by
  cases hheld : (t.entry s).bounds.isVacant with
  | true =>
      rw [h.block_of_vacant hheld, h.nodesAt_of_next (h.vacant s hheld).2]
      rfl
  | false =>
      rw [block_of_held hheld, List.length_cons, List.length_map]
      rfl

/-- As long as no block holds more regions than it has addresses, nodes cannot
run out. -/
theorem Linked.usedCount_le (h : t.Linked) (hfull : t.LossFree)
    (hlength : ∀ s, (t.block s).regions.length ≤ blockSize) :
    t.nodes.usedCount ≤ (blockSize - 1) * blockCount := by
  have hbound : ∀ n ∈ Finset.range blockCount,
      (t.nodesAt (.behind (Slot.ofBlock n))).length ≤ blockSize - 1 := by
    intro n _
    rw [h.length_nodesAt]
    exact Nat.sub_le_sub_right (hlength _) 1
  rw [h.usedCount_eq hfull]
  -- the two numbers are counted with, never counted up to
  generalize blockCount = count at hbound ⊢
  generalize blockSize - 1 = most at hbound ⊢
  have hsum := Finset.sum_le_card_nsmul (Finset.range count) _ most hbound
  rw [Finset.card_range, Nat.nsmul_eq_mul, Nat.mul_comm] at hsum
  exact hsum

end Table

end RegionGuard
