import RegionGuard.Proofs.Access.Scalar
import RegionGuard.Proofs.Checker.Operations
import Mathlib.Logic.ExistsUnique

/-!
# Runs of a checker

A checker is used through all of its operations, in any order and with any
arguments.  Its users promise two things: memory registered by hand is outside the
heap and apart from the live regions, and what they remove by hand is not the
heap's.  Then heap and table stay in step.
-/

namespace RegionGuard

namespace Checker

/-- An operation of the checker and its arguments. -/
inductive Op : Type 1
  | register (addr : Addr) (size : UInt32)
  | unregister (addr : Addr)
  | advance (ptr : Pointer) (offset : Int32)
  | load (ptr : Pointer) (offset : Int32) (access : Access)
  | store (ptr : Pointer) (offset : Int32) (access : Access) (value : Int64)
  | loadTyped (α : Type) [Scalar α] [LawfulScalar α] (ptr : Pointer) (offset : Int32)
  | storeTyped {α : Type} [Scalar α] [LawfulScalar α] (ptr : Pointer) (offset : Int32) (value : α)
  | allocate (size : UInt32)
  | allocateZeros (count size : UInt32)
  | free (addr : Addr)
  | resize (addr : Addr) (size : UInt32)

namespace Op

/-- The checker after an operation. -/
def run (c : Checker Heap) : Op → Checker Heap
  | register addr size => (c.register addr size).2
  | unregister addr => (c.unregister addr).2
  | advance ptr offset => (c.advance ptr offset).2
  | load ptr offset access => (c.load ptr offset access).2
  | store ptr offset access value => (c.store ptr offset access value).2
  | loadTyped α ptr offset => (c.loadTyped α ptr offset).2
  | storeTyped ptr offset value => (c.storeTyped ptr offset value).2
  | allocate size => (c.allocate size).2
  | allocateZeros count size => (c.allocateZeros count size).2
  | free addr => (c.free addr).2
  | resize addr size => (c.resize addr size).2

/-- The promises of the users. -/
def Fair (c : Checker Heap) : Op → Prop
  | register addr size =>
    (c.register addr size).1 = .ok () →
      (∀ b ∈ c.table.liveRegions, b.Apart ⟨addr, size⟩) ∧
        ∀ a, Bounds.Spans ⟨addr, size⟩ a → ¬ c.heap.zone.Has a
  | unregister addr => ¬ c.heap.zone.Has addr
  | _ => True

/-- The promise about what is registered by hand alone. -/
def Separate (c : Checker Heap) : Op → Prop
  | register addr size => (register addr size).Fair c
  | _ => True

/-- The operation is the one that ends the life of the region at `start`: it removes
or frees that address, or resizes it and gives the old place back. -/
def Releases (c : Checker Heap) (start : Addr) : Op → Prop
  | unregister addr => start = addr ∧ (c.unregister addr).1 = .ok ()
  | free addr => start = addr ∧ (c.free addr).1 = .ok ()
  | resize addr size =>
    start = addr ∧ (size = 0 ∨ ∃ target, (c.resize addr size).1 = .ok (some target))
  | _ => False

end Op

/-- A checker in use. -/
def system : System (Checker Heap) Op where
  permits c op := op.Fair c
  next c op := op.run c

/-- A fresh checker with this configuration can come to this state. -/
def Reached (config : Config) (c : Checker Heap) : Prop :=
  ∃ fresh ops, create config = .ok fresh ∧ system.Run fresh ops c

/-- A checker in use by those who promise nothing about what they remove. -/
def openSystem : System (Checker Heap) Op where
  permits c op := op.Separate c
  next c op := op.run c

/-- Such use can take a fresh checker with this configuration to this state. -/
def OpenlyReached (config : Config) (c : Checker Heap) : Prop :=
  ∃ fresh ops, create config = .ok fresh ∧ openSystem.Run fresh ops c

variable {config : Config} {strays : Set Extent} {c : Checker Heap} {live : Set Bounds}

/-! ## In step along every run -/

/-- A configuration that passes the check of its placement gives the table of its zones and a
fresh heap. -/
theorem create_eq (hplaced : config.checkPlacement = .ok ()) {table : Table}
    (htable : Table.reserving config.zones = .ok table) :
    create config = .ok ⟨table, Heap.fresh config.heap, config⟩ := by
  have haround : around config (Heap.fresh config.heap) =
      .ok ⟨table, Heap.fresh config.heap, config⟩ := by
    show (Table.reserving config.zones).map _ = _
    rw [htable]
    rfl
  simp only [create, hplaced, haround]

/-- There is a fresh checker for a configuration that passes the check, and no region
is live. -/
theorem exists_fresh (hplaced : config.checkPlacement = .ok ()) :
    ∃ table, create config = .ok ⟨table, Heap.fresh config.heap, config⟩ ∧
      ∀ strays, InStep config strays ⟨table, Heap.fresh config.heap, config⟩ ∅ := by
  obtain ⟨table, htable, -⟩ := Table.exists_reserving config.zones
  have hbelow := (Config.placed_of_checkPlacement hplaced).stop_lt
  refine ⟨table, create_eq hplaced htable, fun strays => ⟨rfl, rfl,
    Table.tracks_of_reserving htable, Heap.tiled_fresh (Nat.le_of_lt hbelow), ?_, ?_, ?_⟩⟩
  · intro b hb
    exact absurd hb (Set.notMem_empty b)
  · intro e he
    cases he
  · intro b hb
    exact absurd hb (Set.notMem_empty b)

/-- Such a configuration always gives a checker, and table and heap of it are in step. -/
theorem exists_create (hplaced : config.checkPlacement = .ok ()) :
    ∃ fresh, create config = .ok fresh ∧ ∀ strays, InStep config strays fresh ∅ := by
  obtain ⟨table, hcreate, hinstep⟩ := exists_fresh hplaced
  exact ⟨_, hcreate, hinstep⟩

/-- No other configuration gives a checker. -/
theorem checkPlacement_of_create (hcreate : create config = .ok c) :
    config.checkPlacement = .ok () := by
  unfold create at hcreate
  split at hcreate
  · cases hcreate
  · assumption

theorem inStep_of_create (hcreate : create config = .ok c) (strays : Set Extent) :
    InStep config strays c ∅ := by
  obtain ⟨fresh, hcreate', hinstep⟩ := exists_create (checkPlacement_of_create hcreate)
  obtain rfl : fresh = c := Except.ok.inj (hcreate'.symm.trans hcreate)
  exact hinstep strays

/-- If the extents of removed allocations count as strays, every operation keeps heap
and table in step, and the regions live that it does not release. -/
theorem InStep.step (h : InStep config strays c live) (op : Op) (hseparate : op.Separate c)
    (hstrays : ∀ addr, op = .unregister addr → config.heap.Has addr →
      ∀ e : Extent, e.start = addr → e ∈ strays) :
    ∃ others, InStep config strays (op.run c) others ∧
      ∀ b ∈ live, b ∈ others ∨ op.Releases c b.start := by
  have hkept : ∀ b ∈ live, b ∈ live ∨ op.Releases c b.start := fun b hb => .inl hb
  cases op with
  | register addr size =>
      have hpromise : (c.register addr size).1 = .ok () → _ := hseparate
      rw [h.tracks.liveRegions_eq, h.zone_eq] at hpromise
      obtain ⟨more, hsubset, hmore⟩ :=
        h.register (fun hok => (hpromise hok).1) fun hok => (hpromise hok).2
      exact ⟨more, hmore, fun b hb => .inl (hsubset hb)⟩
  | unregister addr => exact h.unregister (hstrays addr rfl)
  | advance ptr offset => exact ⟨live, h.advance ptr offset, hkept⟩
  | load ptr offset access =>
      refine ⟨live, ?_, hkept⟩
      rw [Op.run, load_eq]
      exact h.loadBytes ptr offset access.width
  | store ptr offset access value =>
      exact ⟨live, h.storeBytes ptr offset access.width (access.encode value), hkept⟩
  | loadTyped α ptr offset =>
      refine ⟨live, ?_, hkept⟩
      rw [Op.run, loadTyped_eq]
      exact h.loadBytes ptr offset (Scalar.access α).width
  | storeTyped ptr offset value => exact ⟨live, h.storeBytes ptr offset _ _, hkept⟩
  | allocate size =>
      rcases h.allocate size with ⟨hnone, -⟩ | ⟨addr, after, hsome, hallocates, -⟩
      · rw [Op.run, hnone]
        exact ⟨live, h, hkept⟩
      · rw [Op.run, hsome]
        exact ⟨_, hallocates.inStep, fun b hb => .inl (Set.mem_insert_of_mem _ hb)⟩
  | allocateZeros count size =>
      obtain ⟨more, hsubset, hmore, -⟩ := h.allocateZeros count size
      exact ⟨more, hmore, fun b hb => .inl (hsubset hb)⟩
  | free addr =>
      obtain ⟨fewer, hfewer, -, hreleased⟩ := h.free addr
      exact ⟨fewer, hfewer, hreleased⟩
  | resize addr size =>
      obtain ⟨others, hothers, -, hreleased⟩ := h.resize addr size
      exact ⟨others, hothers, hreleased⟩

/-- Fair use makes no strays. -/
theorem InStep.step_of_fair (h : InStep config strays c live) (op : Op) (hfair : op.Fair c) :
    ∃ others, InStep config strays (op.run c) others ∧
      ∀ b ∈ live, b ∈ others ∨ op.Releases c b.start := by
  refine h.step op ?_ ?_
  · cases op with
    | register addr size => exact hfair
    | _ => trivial
  · rintro addr rfl hhas
    have hout : ¬ c.heap.zone.Has addr := hfair
    rw [h.zone_eq] at hout
    exact absurd hhas hout

/-- The live regions are those that the table lists. -/
theorem InStep.listed (h : InStep config strays c live) :
    InStep config strays c c.table.liveRegions := by
  rw [h.tracks.liveRegions_eq]
  exact h

/-- Table and heap stay in step along every run that the users' promises allow. -/
theorem InStep.run {after : Checker Heap} {ops : List Op} (hrun : system.Run c ops after)
    (h : InStep config strays c live) : InStep config strays after after.table.liveRegions := by
  refine hrun.invariant (fun c => InStep config strays c c.table.liveRegions) ?_ h.listed
  intro s op hfair hs
  obtain ⟨others, hothers, -⟩ := hs.step_of_fair op hfair
  exact hothers.listed

/-- In every state that fair use leads to, table and heap are in step without stray blocks. -/
theorem Reached.inStep (h : Reached config c) : InStep config ∅ c c.table.liveRegions := by
  obtain ⟨fresh, ops, hcreate, hrun⟩ := h
  exact (inStep_of_create hcreate ∅).run hrun

/-- If any extent may be a stray, nothing needs to be promised about removals. -/
theorem OpenlyReached.inStep (h : OpenlyReached config c) :
    InStep config Set.univ c c.table.liveRegions := by
  obtain ⟨fresh, ops, hcreate, hrun⟩ := h
  refine hrun.invariant (fun c => InStep config Set.univ c c.table.liveRegions) ?_
    (inStep_of_create hcreate Set.univ).listed
  intro s op hseparate hs
  obtain ⟨others, hothers, -⟩ := hs.step op hseparate fun _ _ _ e _ => Set.mem_univ e
  exact hothers.listed

theorem Reached.step (h : Reached config c) {op : Op} (hfair : op.Fair c) :
    Reached config (op.run c) := by
  obtain ⟨fresh, ops, hcreate, hrun⟩ := h
  exact ⟨fresh, ops ++ [op], hcreate, hrun.snoc hfair⟩

theorem OpenlyReached.step (h : OpenlyReached config c) {op : Op} (hseparate : op.Separate c) :
    OpenlyReached config (op.run c) := by
  obtain ⟨fresh, ops, hcreate, hrun⟩ := h
  exact ⟨fresh, ops ++ [op], hcreate, hrun.snoc hseparate⟩

/-! ## What being in step means -/

/-- The allocations that the table knows are those of the heap, and the rest of
the heap's zone is forbidden. -/
structure HeapAgrees (c : Checker Heap) : Prop where
  /-- One live extent belongs to each live region that starts in the zone. -/
  extent_of_region : ∀ b ∈ c.table.liveRegions, c.heap.zone.Has b.start →
    ∃! e, e ∈ c.heap.live ∧ e.Backs b
  /-- One live region that starts in the zone belongs to each live extent. -/
  region_of_extent : ∀ e ∈ c.heap.live,
    ∃! b, (b ∈ c.table.liveRegions ∧ c.heap.zone.Has b.start) ∧ e.Backs b
  /-- The regions that start in the zone stay in it, with their ends. -/
  inside : ∀ b ∈ c.table.liveRegions, c.heap.zone.Has b.start →
    c.heap.zone.start.toNat ≤ b.start.toNat ∧ b.start.toNat + b.size.toNat < c.heap.zone.stop
  /-- They have no address in common, their ends included. -/
  apart : {b ∈ c.table.liveRegions | c.heap.zone.Has b.start}.Pairwise Bounds.Apart
  /-- Every other address of the zone is forbidden. -/
  forbidden : ∀ addr, c.heap.zone.Has addr →
    (∀ b ∈ c.table.liveRegions, c.heap.zone.Has b.start → ¬ b.Spans addr) →
      (c.table.standing addr).1 = .forbidden
  /-- Allocating is never refused with a violation. -/
  allocate_ok : ∀ size, ∃ answer, (c.allocate size).1 = .ok answer

/-- Table and heap that are in step agree about what is allocated, region by region and block by
block. -/
theorem InStep.heapAgrees (hplaced : config.Placed) (h : InStep config ∅ c c.table.liveRegions) :
    c.HeapAgrees where
  extent_of_region b hb hhas := by
    rw [h.zone_eq] at hhas
    obtain ⟨e, he, hbacks⟩ := h.exists_extent b hb hhas
    refine ⟨e, ⟨he, hbacks⟩, ?_⟩
    intro other ⟨hother, hbacks'⟩
    exact h.tiled.live_sorted.eq_of_start hother he (hbacks'.start_eq.trans hbacks.start_eq.symm)
  region_of_extent e he := by
    obtain ⟨b, hb, hbacks⟩ := h.exists_region e he (Set.notMem_empty e)
    have husable := h.tiled.live_usable he (Extent.covers_start (h.tiled.live_pos e he))
    have hhas : config.heap.Has b.start := h.usable_has husable (by rw [hbacks.start_eq])
    rw [h.zone_eq]
    refine ⟨b, ⟨⟨hb, hhas⟩, hbacks⟩, ?_⟩
    rintro other ⟨⟨hother, -⟩, hbacks'⟩
    exact h.tracks.separate.eq_of_start hother hb (hbacks'.start_eq.symm.trans hbacks.start_eq)
  inside b hb hhas := by
    rw [h.zone_eq] at hhas ⊢
    exact ⟨hhas.1, h.stop_lt hb hhas⟩
  apart := h.tracks.separate.apart.mono fun _ hb => hb.1
  forbidden addr hhas hno := by
    rw [h.zone_eq] at hhas hno
    have hnone : ∀ b ∈ c.table.liveRegions, ¬ b.Spans addr := fun b hb hspans =>
      hno b hb ((h.has_of_spans hb hspans).mp hhas) hspans
    rw [h.tracks.standing_of_none hnone, if_pos (hplaced.reserved hhas)]
  allocate_ok size := by
    rcases h.allocate size with ⟨hnone, -⟩ | ⟨addr, after, hsome, -⟩
    · exact ⟨none, by rw [hnone]⟩
    · exact ⟨some addr, by rw [hsome]⟩

/-- A configuration that passes the check has a checker, and wherever fair use
takes it, the heap agrees with the table. -/
theorem heapAgrees_of_reached (hplaced : config.checkPlacement = .ok ()) :
    (∃ fresh, create config = .ok fresh) ∧
      ∀ c, Reached config c → c.heap.zone = config.heap ∧ c.HeapAgrees := by
  obtain ⟨fresh, hcreate, -⟩ := exists_create hplaced
  refine ⟨⟨fresh, hcreate⟩, ?_⟩
  intro c hreached
  have hinstep := hreached.inStep
  exact ⟨hinstep.zone_eq, hinstep.heapAgrees (Config.placed_of_checkPlacement hplaced)⟩

/-- The default settings, but with accesses to untracked memory rejected. -/
def strictConfig : Config :=
  { Config.default with untracked := .forbid }

/-- A run to one allocation of 16 bytes. -/
theorem exists_reached_carved :
    ∃ c, Reached strictConfig c ∧ c.table.liveRegions = {⟨0x10000000, 16⟩} ∧
      c.heap = (Heap.fresh strictConfig.heap).carve 24 ⟨0x10000000, 0x1000000⟩ := by
  have hplaced : strictConfig.checkPlacement = .ok () := by decide
  obtain ⟨table, hcreate, hinstep⟩ := exists_fresh hplaced
  have hneeded : Heap.needed? 16 = some 24 := by decide
  have hfree : (Heap.fresh strictConfig.heap).free = [⟨0x10000000, 0x1000000⟩] := by decide
  have hfound : ⟨0x10000000, 0x1000000⟩ ∈ (Heap.fresh strictConfig.heap).free := by simp [hfree]
  obtain ⟨after, hafter, hallocates⟩ := (hinstep ∅).carve hneeded hfound (by decide)
  have hheap : (Heap.fresh strictConfig.heap).allocate 16 =
      (some 0x10000000, (Heap.fresh strictConfig.heap).carve 24 ⟨0x10000000, 0x1000000⟩) := rfl
  have hstart : Reached strictConfig _ := ⟨_, [], hcreate, .nil _⟩
  have hreached := hstart.step (show (Op.allocate 16).Fair _ from trivial)
  rw [Op.run, allocate_of_some hheap hafter] at hreached
  refine ⟨_, hreached, ?_, rfl⟩
  rw [hallocates.inStep.tracks.liveRegions_eq, insert_empty_eq]

/-- No byte has been changed there. -/
theorem exists_reached_allocation :
    ∃ c, Reached strictConfig c ∧ c.table.liveRegions = {⟨0x10000000, 16⟩} ∧
      c.heap.bytes = Bytes.zeros := by
  obtain ⟨c, hreached, hlive, hheap⟩ := exists_reached_carved
  exact ⟨c, hreached, hlive, congrArg Heap.bytes hheap⟩

/-- The allocation is the heap's only extent, and behind its end nothing may be
accessed. -/
theorem heapAgrees_of_reached_allocation :
    ∃ c : Checker Heap, (∃! e, e ∈ c.heap.live ∧ e.Backs ⟨0x10000000, 16⟩) ∧
      (c.table.standing 0x10000011).1 = .forbidden := by
  obtain ⟨c, hreached, hlive, -⟩ := exists_reached_allocation
  have hplaced : strictConfig.checkPlacement = .ok () := by decide
  obtain ⟨hzone, hagrees⟩ := (heapAgrees_of_reached hplaced).2 c hreached
  refine ⟨c, hagrees.extent_of_region _ ?_ ?_, hagrees.forbidden _ ?_ ?_⟩
  · rw [hlive]
    rfl
  · rw [hzone]
    decide
  · rw [hzone]
    decide
  · rw [hlive]
    rintro b rfl -
    decide

end Checker

end RegionGuard
