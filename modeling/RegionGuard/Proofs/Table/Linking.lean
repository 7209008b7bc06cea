import RegionGuard.Table.Region
import RegionGuard.Proofs.Table.Block
import RegionGuard.Proofs.Table.Chain
import RegionGuard.Proofs.Table.Range

/-!
# Entries, nodes and the lists they stand for

A table is `Linked` if its nodes are in good order: every chain ends, no node is
behind two blocks or both behind a block and free, the free nodes are counted,
and an entry without a region is the sentinel of its block and leads nowhere.
It is `LossFree` if, moreover, no node has fallen out of use unnoticed.

An operation on one block changes the nodes behind that block and the free nodes
only, which `Rewires` records once for all of them.  From it follow the order of
the nodes afterwards and that no other block notices.  Then each operation needs
one fact more, what the list of its own block becomes.
-/

namespace RegionGuard

/-- Where a node can be: behind the entry of a block, or among the free nodes. -/
inductive NodePlace
  | behind (s : Slot)
  | free
  deriving DecidableEq

namespace Table

/-- The first node at a place. -/
def firstNode (t : Table) : NodePlace → Option NodeId
  | .behind s => (t.entry s).next
  | .free => t.nodes.freeHead

/-- The nodes met from the first one at a place. -/
def nodesAt (t : Table) (place : NodePlace) : List NodeId :=
  t.nodes.chain (t.firstNode place)

/-- The list and the mark that a block stands for. -/
def block (t : Table) (s : Slot) : Block :=
  ⟨t.regionsAt s.firstAddr, (t.entry s).isForbidden⟩

/-- The nodes of the table are in good order. -/
structure Linked (t : Table) : Prop where
  leads : ∀ place, t.nodes.Leads (t.firstNode place) (t.nodesAt place)
  apart : ∀ {p q id}, id ∈ t.nodesAt p → id ∈ t.nodesAt q → p = q
  freeCount_eq : t.nodes.freeCount = (t.nodesAt .free).length
  vacant : ∀ s, (t.entry s).bounds.isVacant = true →
    (t.entry s).bounds = (t.entry s).fallback ∧ (t.entry s).next = none
  occupied : ∀ s, ∀ id ∈ t.nodesAt (.behind s), (t.nodes.get id).bounds.isVacant = false

/-- Every node is behind some block or free. -/
def LossFree (t : Table) : Prop :=
  ∀ id : NodeId, id.index < t.nodes.nodes.size → ∃ place, id ∈ t.nodesAt place

variable {t after : Table} {s : Slot}

/-- The regions of a block are those that are listed for any of its addresses. -/
theorem regions_block (t : Table) (addr : Addr) :
    (t.block (Slot.ofAddr addr)).regions = t.regionsAt addr := by
  simp [block, regionsAt, Slot.ofAddr_firstAddr]

/-- Behind the region in an entry the block lists those of the nodes, in their order. -/
theorem block_of_held (hheld : (t.entry s).bounds.isVacant = false) :
    t.block s = ⟨(t.entry s).bounds ::
      (t.nodesAt (.behind s)).map fun id => (t.nodes.get id).bounds, (t.entry s).isForbidden⟩ := by
  simp [block, regionsAt, Slot.ofAddr_firstAddr, hheld, nodesAt, firstNode, NodePool.regions]

theorem Linked.nodesAt_of_next (h : t.Linked) (hnext : (t.entry s).next = none) :
    t.nodesAt (.behind s) = [] := by
  have hleads := h.leads (.behind s)
  rw [firstNode, hnext] at hleads
  exact hleads.eq_nil

/-- An entry without a region means a block without one. -/
theorem Linked.block_of_vacant (h : t.Linked) (hvacant : (t.entry s).bounds.isVacant = true) :
    t.block s = ⟨[], (t.entry s).isForbidden⟩ := by
  have hnodes := h.nodesAt_of_next (h.vacant s hvacant).2
  rw [nodesAt, firstNode] at hnodes
  simp [block, regionsAt, Slot.ofAddr_firstAddr, hvacant, NodePool.regions, hnodes]

/-- A block that stays the same in entry and nodes stays the same list. -/
theorem block_congr (hentry : after.entry s = t.entry s)
    (hnodes : after.nodesAt (.behind s) = t.nodesAt (.behind s))
    (hget : ∀ id ∈ t.nodesAt (.behind s), after.nodes.get id = t.nodes.get id) :
    after.block s = t.block s := by
  have hregions : after.nodes.regions (t.entry s).next = t.nodes.regions (t.entry s).next := by
    rw [nodesAt, nodesAt, firstNode, firstNode, hentry] at hnodes
    rw [nodesAt, firstNode] at hget
    rw [NodePool.regions, NodePool.regions, hnodes]
    exact List.map_congr_left fun id hid => by rw [hget id hid]
  simp only [block, regionsAt, Slot.ofAddr_firstAddr, hentry, hregions]

/-- Without nodes there is no chain, so nothing can be out of order. -/
theorem linked_of_empty (hnodes : t.nodes = NodePool.empty)
    (hvacant : ∀ s, (t.entry s).bounds = (t.entry s).fallback ∧ (t.entry s).next = none) :
    t.Linked := by
  have hnext : ∀ place, t.firstNode place = none := by
    rintro (s | _)
    · exact (hvacant s).2
    · rw [firstNode, hnodes]
      rfl
  have hnone : ∀ place, t.nodesAt place = [] := fun place => by
    rw [nodesAt, hnext]
    exact NodePool.Leads.nil.chain_eq
  exact
    { leads := fun place => by
        rw [hnext, hnone]
        exact .nil
      apart := fun {p q id} hp => by
        rw [hnone] at hp
        cases hp
      freeCount_eq := by
        rw [hnone, hnodes]
        rfl
      vacant := fun s _ => hvacant s
      occupied := fun s id hid => by
        rw [hnone] at hid
        cases hid }

/-! ## Operations on one block -/

/-- An operation on the block of `s` has left the other blocks and their nodes
alone.  The nodes behind the block and the free ones, and new nodes if there are
any, are now distributed to `behind` and `free`. -/
structure Rewires (t after : Table) (s : Slot) (behind free : List NodeId) : Prop where
  entry_other : ∀ s', s' ≠ s → after.entry s' = t.entry s'
  size_le : t.nodes.nodes.size ≤ after.nodes.nodes.size
  get_other : ∀ id : NodeId, id.index < t.nodes.nodes.size → id ∉ t.nodesAt (.behind s) →
    id ∉ t.nodesAt .free → after.nodes.get id = t.nodes.get id
  leads_behind : after.nodes.Leads (after.entry s).next behind
  leads_free : after.nodes.Leads after.nodes.freeHead free
  freeCount_eq : after.nodes.freeCount = free.length
  moved : ∀ id, id ∈ behind ∨ id ∈ free ↔
    id ∈ t.nodesAt (.behind s) ∨ id ∈ t.nodesAt .free ∨
      t.nodes.nodes.size ≤ id.index ∧ id.index < after.nodes.nodes.size
  apart : ∀ id ∈ behind, id ∉ free
  vacant : (after.entry s).bounds.isVacant = true →
    (after.entry s).bounds = (after.entry s).fallback ∧ (after.entry s).next = none
  occupied : ∀ id ∈ behind, (after.nodes.get id).bounds.isVacant = false

section Rewires

variable {behind free : List NodeId}

/-- The nodes behind the block are those that were distributed to it. -/
theorem Rewires.nodesAt_behind (r : t.Rewires after s behind free) :
    after.nodesAt (.behind s) = behind :=
  r.leads_behind.chain_eq

theorem Rewires.nodesAt_free (r : t.Rewires after s behind free) : after.nodesAt .free = free :=
  r.leads_free.chain_eq

/-- The nodes behind another block are not the operation's. -/
theorem Rewires.get_behind (r : t.Rewires after s behind free) (h : t.Linked) {s' : Slot}
    (hs : s' ≠ s) {id : NodeId} (hid : id ∈ t.nodesAt (.behind s')) :
    after.nodes.get id = t.nodes.get id := by
  refine r.get_other id ((h.leads _).lt id hid) ?_ ?_
  · intro hbehind
    exact hs (NodePlace.behind.inj (h.apart hid hbehind))
  · intro hfree
    cases h.apart hid hfree

/-- The links behind another block meet the same nodes as before. -/
theorem Rewires.leads_other (r : t.Rewires after s behind free) (h : t.Linked) {s' : Slot}
    (hs : s' ≠ s) :
    after.nodes.Leads (after.firstNode (.behind s')) (t.nodesAt (.behind s')) := by
  rw [firstNode, r.entry_other s' hs]
  exact (h.leads (.behind s')).preserve r.size_le fun id hid => by rw [r.get_behind h hs hid]

/-- So that block has the same nodes behind it. -/
theorem Rewires.nodesAt_other (r : t.Rewires after s behind free) (h : t.Linked) {s' : Slot}
    (hs : s' ≠ s) : after.nodesAt (.behind s') = t.nodesAt (.behind s') :=
  (r.leads_other h hs).chain_eq

/-- The list of the block itself afterwards, unless it has become empty. -/
theorem Rewires.block_self (r : t.Rewires after s behind free)
    (hheld : (after.entry s).bounds.isVacant = false) :
    after.block s = ⟨(after.entry s).bounds ::
      behind.map fun id => (after.nodes.get id).bounds, (after.entry s).isForbidden⟩ := by
  rw [block_of_held hheld, r.nodesAt_behind]

/-- No other block notices. -/
theorem Rewires.block_other (r : t.Rewires after s behind free) (h : t.Linked) {s' : Slot}
    (hs : s' ≠ s) : after.block s' = t.block s' :=
  block_congr (r.entry_other s' hs) (r.nodesAt_other h hs) fun _ hid => r.get_behind h hs hid

/-- A node of another block did not come to this one or to the free nodes. -/
theorem Rewires.not_moved (r : t.Rewires after s behind free) (h : t.Linked) {s' : Slot}
    (hs : s' ≠ s) {id : NodeId} (hid : id ∈ t.nodesAt (.behind s')) :
    ¬ (id ∈ behind ∨ id ∈ free) := by
  rw [r.moved id]
  rintro (hbehind | hfree | ⟨hnew, -⟩)
  · exact hs (NodePlace.behind.inj (h.apart hid hbehind))
  · cases h.apart hid hfree
  · have := (h.leads _).lt id hid
    omega

/-- An operation of this kind keeps the table in good order. -/
theorem Rewires.linked (r : t.Rewires after s behind free) (h : t.Linked) : after.Linked where
  leads := by
    rintro (s' | _)
    · by_cases hs : s' = s
      · subst hs
        rw [r.nodesAt_behind]
        exact r.leads_behind
      · rw [r.nodesAt_other h hs]
        exact r.leads_other h hs
    · rw [r.nodesAt_free]
      exact r.leads_free
  apart := by
    -- the place of a node is decided by whether the operation had it in its hands
    have hplace : ∀ {p id}, id ∈ after.nodesAt p →
        p = .behind s ∧ id ∈ behind ∨ p = .free ∧ id ∈ free ∨
        ∃ s', s' ≠ s ∧ p = .behind s' ∧ id ∈ t.nodesAt (.behind s') := by
      rintro (s' | _) id hid
      · by_cases hs : s' = s
        · subst hs
          rw [r.nodesAt_behind] at hid
          exact .inl ⟨rfl, hid⟩
        · rw [r.nodesAt_other h hs] at hid
          exact .inr (.inr ⟨s', hs, rfl, hid⟩)
      · rw [r.nodesAt_free] at hid
        exact .inr (.inl ⟨rfl, hid⟩)
    intro p q id hp hq
    rcases hplace hp with ⟨rfl, hp'⟩ | ⟨rfl, hp'⟩ | ⟨s', hs, rfl, hp'⟩ <;>
      rcases hplace hq with ⟨rfl, hq'⟩ | ⟨rfl, hq'⟩ | ⟨s'', hs', rfl, hq'⟩
    · rfl
    · exact absurd hq' (r.apart id hp')
    · exact absurd (.inl hp') (r.not_moved h hs' hq')
    · exact absurd hp' (r.apart id hq')
    · rfl
    · exact absurd (.inr hp') (r.not_moved h hs' hq')
    · exact absurd (.inl hq') (r.not_moved h hs hp')
    · exact absurd (.inr hq') (r.not_moved h hs hp')
    · exact h.apart hp' hq'
  freeCount_eq := by rw [r.nodesAt_free, r.freeCount_eq]
  vacant := by
    intro s' hvacant
    by_cases hs : s' = s
    · subst hs
      exact r.vacant hvacant
    · rw [r.entry_other s' hs] at hvacant ⊢
      exact h.vacant s' hvacant
  occupied := by
    intro s' id hid
    by_cases hs : s' = s
    · subst hs
      rw [r.nodesAt_behind] at hid
      exact r.occupied id hid
    · rw [r.nodesAt_other h hs] at hid
      rw [r.get_behind h hs hid]
      exact h.occupied s' id hid

/-- It loses no node, as the ones it moves are all accounted for. -/
theorem Rewires.lossFree (r : t.Rewires after s behind free) (h : t.Linked)
    (hfull : t.LossFree) : after.LossFree := by
  intro id hid
  have hplace : id ∈ behind ∨ id ∈ free → ∃ place, id ∈ after.nodesAt place := by
    rintro (hbehind | hfree)
    · exact ⟨.behind s, by rwa [r.nodesAt_behind]⟩
    · exact ⟨.free, by rwa [r.nodesAt_free]⟩
  rcases Nat.lt_or_ge id.index t.nodes.nodes.size with hold | hnew
  · obtain ⟨s' | _, hat⟩ := hfull id hold
    · by_cases hs : s' = s
      · subst hs
        exact hplace ((r.moved id).mpr (.inl hat))
      · exact ⟨.behind s', by rwa [r.nodesAt_other h hs]⟩
    · exact hplace ((r.moved id).mpr (.inr (.inl hat)))
  · exact hplace ((r.moved id).mpr (.inr (.inr ⟨hnew, hid⟩)))

end Rewires

/-- One table follows another: its nodes are in good order, none is lost that was
not lost before, and its blocks are the given ones. -/
structure Becomes (t after : Table) (blocks : Slot → Block) : Prop where
  linked : after.Linked
  lossFree : t.LossFree → after.LossFree
  block_eq : after.block = blocks

theorem Becomes.refl (h : t.Linked) : t.Becomes t t.block :=
  ⟨h, id, rfl⟩

/-- Such an operation changes its own block only. -/
theorem Rewires.becomes {behind free : List NodeId} (r : t.Rewires after s behind free)
    (h : t.Linked) : t.Becomes after (Function.update t.block s (after.block s)) where
  linked := r.linked h
  lossFree := r.lossFree h
  block_eq := by
    funext s'
    by_cases hs : s' = s
    · subst hs
      simp
    · rw [Function.update_of_ne hs, r.block_other h hs]

/-- The same with the list of the block written out. -/
theorem Rewires.becomes_held {behind free : List NodeId} (r : t.Rewires after s behind free)
    (h : t.Linked) {e : Entry} {others : List Bounds} (hentry : after.entry s = e)
    (hheld : e.bounds.isVacant = false)
    (hothers : behind.map (fun id => (after.nodes.get id).bounds) = others) :
    t.Becomes after (Function.update t.block s ⟨e.bounds :: others, e.isForbidden⟩) := by
  have hbecomes := r.becomes h
  rw [r.block_self (by rw [hentry]; exact hheld), hentry, hothers] at hbecomes
  exact hbecomes

end Table

end RegionGuard
