import RegionGuard.Proofs.Table.Accounting
import RegionGuard.Proofs.Table.Looking
import Mathlib.Order.Bounds.Basic

/-!
# Identifiers do not run out

Pages and nodes are named by numbers of 32 bits, and neither is ever given back: a
page belongs to its slot for good, and a released node waits to be used again.  That
there is always a name left needs no limit on the length of a run.  There is one page
for a slot at most, and the pool of nodes is only as large as the most nodes that were
in use at once.  As live regions are apart, each that touches a block takes one of its
addresses, so no block lists more regions than it has addresses, and all but one of
them take a node.
-/

namespace RegionGuard

namespace Table

/-- What an operation adds: no slot loses its page, and the pool is as large as it was or
as it must be now. -/
structure Grows (t after : Table) : Prop where
  ownedPages_le : t.counts.ownedPages ≤ after.counts.ownedPages
  size_eq : after.nodes.nodes.size = max t.nodes.nodes.size after.nodes.usedCount

/-- The bookkeeping of a table that operations have led to from a fresh one. -/
structure Supplied (t fresh : Table) (ops : List Op) : Prop where
  /-- A block lists no more regions than it has addresses. -/
  length_regionsAt_le : ∀ addr, (t.regionsAt addr).length ≤ 256
  /-- So a block takes 255 nodes at most. -/
  liveNodes_le : t.counts.liveNodes ≤ 255 * 2 ^ 24
  /-- Used and free together, the nodes are as many as were ever in use at once. -/
  isGreatest_liveNodes : IsGreatest
    {n | ∃ state ∈ system.states (fresh, ∅) ops, state.1.counts.liveNodes = n}
    (t.counts.liveNodes + t.counts.freeNodes)
  /-- No page is given up. -/
  pairwise_ownedPages :
    ((system.states (fresh, ∅) ops).map fun state => state.1.counts.ownedPages).Pairwise (· ≤ ·)
  /-- There are no more pages than directory slots. -/
  ownedPages_le : t.counts.ownedPages ≤ 8192
  /-- Even two more nodes, as many as a registration may need, would have identifiers. -/
  size_lt : t.nodes.nodes.size + 1 < idLimit
  /-- A node to be stored gets an identifier. -/
  exists_add : ∀ node, ∃ id, (t.nodes.add node).1 = some id
  /-- A slot that needs a page gets one. -/
  exists_own : ∀ d, ∃ id, (t.directory.own d).1 = some id
  /-- A registration does not fail for want of an identifier. -/
  register_ne : ∀ start size, (t.register start size).1 ≠ .error .metadataExhausted

variable {fresh t after : Table} {zones : List Zone} {live last : Set Bounds} {ops : List Op}

/-! ## One operation -/

/-- If no slot gives its page up, there are no fewer pages. -/
theorem ownedPages_le_of_owned (h : ∀ d, t.directory.isOwned d = true →
    after.directory.isOwned d = true) : t.counts.ownedPages ≤ after.counts.ownedPages := by
  show t.directory.pages.size ≤ after.directory.pages.size
  rw [Directory.size_pages_eq, Directory.size_pages_eq]
  exact Finset.card_le_card (Finset.monotone_filter_right _ fun d _ => h d)

/-- What is charged for is no more than an operation needs, and no page is given up. -/
theorem Charges.grows {dirs : Set (Fin directorySlots)} {most : Nat}
    (h : t.Charges after dirs most) : t.Grows after where
  ownedPages_le := ownedPages_le_of_owned fun d hd => (h.owned_iff d).mpr (.inl hd)
  size_eq := h.size_eq

/-- An operation that takes nothing does not grow the pool. -/
theorem Frugal.grows (h : t.Frugal after) : t.Grows after where
  ownedPages_le := ownedPages_le_of_owned fun d hd => (h.owned_eq d).trans hd
  size_eq := by
    have hused : t.nodes.usedCount ≤ t.nodes.nodes.size := Nat.sub_le _ _
    rw [h.size_eq, max_eq_left (h.used_le.trans hused)]

/-- Only a registration takes anything, and it takes no more than it needs. -/
theorem Tracks.grows (h : t.Tracks zones live) (op : Op) : t.Grows (op.run t) := by
  cases op with
  | register start size =>
      by_cases hrefused : start = 0 ∨ addressCount ≤ start.toNat + size.toNat
      · rw [Op.run, register_error hrefused]
        exact (Frugal.refl t).grows
      · obtain ⟨hstart, hfits⟩ := not_or.mp hrefused
        exact (h.charges_register hstart (Nat.lt_of_not_le hfits)).grows
  | unregister start => exact (t.frugal_unregister start).grows
  | lookup | find | standing | sizeAt | advance | locate =>
      refine Frugal.grows (Op.Reads.frugal (.inl ?_))
      trivial

/-! ## Runs -/

/-- Every state of a run tracks the regions that are live in it. -/
theorem Tracks.states (h : t.Tracks zones live)
    (hrun : system.Run (t, live) ops (after, last)) :
    ∀ state ∈ system.states (t, live) ops, state.1.Tracks zones state.2 :=
  hrun.forall_states (fun state => state.1.Tracks zones state.2)
    (fun _ op hfair htracks => htracks.step op hfair) h

/-- Every node is counted as live or as free. -/
theorem Linked.liveNodes_add_freeNodes (h : t.Linked) :
    t.counts.liveNodes + t.counts.freeNodes = t.nodes.nodes.size :=
  Nat.sub_add_cancel h.freeCount_le

/-- Each region listed for a block has an address there of its own, so there are no more of them
than addresses. -/
theorem Tracks.length_regionsAt_le (h : t.Tracks zones live) (addr : Addr) :
    (t.regionsAt addr).length ≤ blockSize := by
  rw [← regions_block]
  exact h.separate.length_le (h.nodup _) fun b hb => (h.mem_iff _ b).mp hb

/-- One region of each block is in its entry, and the others are behind it in nodes. -/
theorem Tracks.liveNodes_le (h : t.Tracks zones live) :
    t.counts.liveNodes ≤ (blockSize - 1) * blockCount :=
  h.linked.usedCount_le h.lossFree fun s =>
    h.separate.length_le (h.nodup s) fun b hb => (h.mem_iff s b).mp hb

/-- The pool refuses a node only when it is full, and it is not. -/
theorem Tracks.exists_add (h : t.Tracks zones live) (node : Node) :
    ∃ id, (t.nodes.add node).1 = some id := by
  rcases (h.linked.leads .free).add_cases h.linked.freeCount_eq node with
    ⟨id, pool, hstores⟩ | ⟨-, hfull⟩
  · exact ⟨id, congrArg Prod.fst hstores.result⟩
  · have hroom := h.room
    omega

/-- The nodes that live regions can need leave identifiers unused, so a registration never runs
out of them. -/
theorem Tracks.register_ne (h : t.Tracks zones live) (start : Addr) (size : UInt32) :
    (t.register start size).1 ≠ .error .metadataExhausted := by
  rw [h.fst_register]
  split_ifs <;> simp

/-- The pool is as large as the most nodes that were ever in use at once on the way. -/
theorem isGreatest_liveNodes_of_run (hfresh : reserving zones = .ok fresh)
    (hrun : system.Run (fresh, ∅) ops (t, live)) :
    IsGreatest {n | ∃ state ∈ system.states (fresh, ∅) ops, state.1.counts.liveNodes = n}
      t.nodes.nodes.size := by
  obtain ⟨fresh', hfresh', hnodes, -, -⟩ := exists_linked_reserving zones
  obtain rfl : fresh' = fresh := Except.ok.inj (hfresh'.symm.trans hfresh)
  -- a fresh table has no nodes, and so none in use
  exact hrun.isGreatest_states (fun state => state.1.Tracks zones state.2)
    (fun _ op hfair htracks => htracks.step op hfair) (fun state => state.1.nodes.nodes.size)
    (fun state => state.1.counts.liveNodes) (fun _ op _ htracks => (htracks.grows op).size_eq)
    (tracks_of_reserving hfresh) (by simp only [counts, hnodes]; rfl)

/-- However long a fair run is, the table has names left where it leads. -/
theorem supplied_of_run (hfresh : reserving zones = .ok fresh)
    (hrun : system.Run (fresh, ∅) ops (t, live)) : t.Supplied fresh ops := by
  have hstart := tracks_of_reserving hfresh
  have hstates := hstart.states hrun
  have htracks : t.Tracks zones live := hstates _ hrun.mem_states
  have hgreatest := isGreatest_liveNodes_of_run hfresh hrun
  have hsize : t.nodes.nodes.size + 1 < idLimit := by
    obtain ⟨state, hmem, hpeak⟩ := hgreatest.1
    have hmost := (hstates state hmem).liveNodes_le
    have hlimit : (blockSize - 1) * blockCount + 1 < idLimit := by decide
    omega
  exact
    { length_regionsAt_le := htracks.length_regionsAt_le
      liveNodes_le := htracks.liveNodes_le
      isGreatest_liveNodes := by
        rw [htracks.linked.liveNodes_add_freeNodes]
        exact hgreatest
      pairwise_ownedPages := hrun.pairwise_states (fun state => state.1.Tracks zones state.2)
        (fun _ op hfair h => h.step op hfair) _ (fun _ op _ h => (h.grows op).ownedPages_le) hstart
      ownedPages_le := t.directory.size_pages_le
      size_lt := hsize
      exists_add := htracks.exists_add
      exists_own := by
        intro d
        obtain ⟨id, hown⟩ := t.directory.exists_own d
        exact ⟨id, congrArg Prod.fst hown⟩
      register_ne := htracks.register_ne }

/-- One of two regions that share a block is removed.  No node is in use any more, but
one is free, because there was a time when it was not. -/
theorem supplied_of_run_removed :
    ∃ t fresh ops last, reserving [⟨0x2000, 0x200⟩] = .ok fresh ∧
      system.Run (fresh, ∅) ops (t, last) ∧ t.counts.liveNodes = 0 ∧ 0 < t.counts.freeNodes := by
  obtain ⟨pair, fresh, ops, hfresh, hrun⟩ := exists_reached_pair
  have hpair : pair.Tracks _ _ := (tracks_of_reserving hfresh).states hrun _ hrun.mem_states
  have hshared : 0 < pair.counts.liveNodes := by
    refine Nat.pos_of_ne_zero fun hnone => ?_
    have hsame := hpair.liveNodes_eq_zero_iff.mp hnone (Slot.ofAddr 0x1000) ⟨0x1020, 0x400⟩
      (by simp) ⟨0x1000, 16⟩ (by simp) ⟨0x1020, by decide, by decide⟩ ⟨0x1000, by decide, by decide⟩
    exact absurd hsame (by decide)
  obtain ⟨t, hafter, htracks⟩ := hpair.unregister_of_mem (b := ⟨0x1000, 16⟩) (by simp)
  have hremoved : system.Run (fresh, ∅) (ops ++ [.unregister 0x1000])
      (t, (Op.unregister 0x1000).live pair {⟨0x1020, 0x400⟩, ⟨0x1000, 16⟩}) := by
    have hnext : (Op.unregister 0x1000).run pair = t := congrArg Prod.snd hafter
    rw [← hnext]
    exact hrun.snoc trivial
  have h := supplied_of_run hfresh hremoved
  have hnone : t.counts.liveNodes = 0 := by
    refine htracks.liveNodes_eq_zero_iff.mpr fun s a ha b hb _ _ => ?_
    have honly : ∀ r ∈ ({⟨0x1020, 0x400⟩, ⟨0x1000, 16⟩} : Set Bounds) \ {⟨0x1000, 16⟩},
        r = ⟨0x1020, 0x400⟩ := fun r hr => hr.1.resolve_right hr.2
    rw [honly a ha, honly b hb]
  -- the state with both regions is one of those that the run has led through
  have hpeak := h.isGreatest_liveNodes.2 ⟨_, hrun.mem_states_append _, rfl⟩
  rw [hnone, Nat.zero_add] at hpeak
  refine ⟨t, fresh, _, _, hfresh, hremoved, hnone, ?_⟩
  exact hshared.trans_le hpeak

end Table

end RegionGuard
