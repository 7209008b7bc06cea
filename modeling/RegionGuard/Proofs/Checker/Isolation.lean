import RegionGuard.Proofs.Checker.Landing

/-!
# Isolation of allocations

Where accesses to untracked memory are rejected, a load or store goes into the
live region of its pointer or is refused.  All else that the checker does to the
heap's bytes happens in regions that were not live before.  So the bytes of a
region change only through its own pointers as long as it lives.
-/

namespace RegionGuard

namespace Checker

/-- Loads and stores that succeed read or write bytes of one live region, that of
their pointer. -/
structure Isolated (c : Checker Heap) : Prop where
  load : ∀ ptr offset access value, (c.load ptr offset access).1 = .ok value →
    ∃ b target, c.Lands ptr offset access.width b target ∧
      access.decode (c.heap.bytes.read target.toNat access.width.bytes.toNat) = some value ∧
      (c.load ptr offset access).2.heap = c.heap
  loadTyped : ∀ (α : Type) [Scalar α] (ptr : Pointer) (offset : Int32) (value : α),
    (c.loadTyped α ptr offset).1 = .ok value →
      ∃ b target, c.Lands ptr offset (Scalar.access α).width b target ∧
        Scalar.ofBytes? (c.heap.bytes.read target.toNat (Scalar.access α).width.bytes.toNat) =
          some value ∧
        (c.loadTyped α ptr offset).2.heap = c.heap
  store : ∀ ptr offset access value, (c.store ptr offset access value).1 = .ok () →
    ∃ b target, c.Lands ptr offset access.width b target ∧
      (access.encode value).length = access.width.bytes.toNat ∧
      (c.store ptr offset access value).2.heap =
        { c.heap with bytes := c.heap.bytes.write target.toNat (access.encode value) }
  storeTyped : ∀ (α : Type) [Scalar α] [LawfulScalar α] (ptr : Pointer) (offset : Int32) (value : α),
    (c.storeTyped ptr offset value).1 = .ok () →
      ∃ b target, c.Lands ptr offset (Scalar.access α).width b target ∧
        (Scalar.toBytes value).length = (Scalar.access α).width.bytes.toNat ∧
        (c.storeTyped ptr offset value).2.heap =
          { c.heap with bytes := c.heap.bytes.write target.toNat (Scalar.toBytes value) }

/-- The operation is a store that succeeds, through a pointer to an address of the
region. -/
def Op.StoresThrough (c : Checker Heap) (b : Bounds) : Op → Prop
  | store ptr offset access value =>
    (c.store ptr offset access value).1 = .ok () ∧ ∃ addr, ptr = .valid addr ∧ b.Spans addr
  | storeTyped ptr offset value =>
    (c.storeTyped ptr offset value).1 = .ok () ∧ ∃ addr, ptr = .valid addr ∧ b.Spans addr
  | _ => False

variable {config : Config} {strays : Set Extent} {c : Checker Heap} {live : Set Bounds}

/-! ## Where an access goes -/

/-- Under the strict policy an accepted access lands in a live region. -/
theorem InStep.lands (h : InStep config strays c live) (hstrict : config.untracked = .forbid)
    {ptr : Pointer} {offset : Int32} {width : Width} {target : Addr}
    (hok : (c.table.locate ptr offset width c.config.untracked).1 = .ok target) :
    ∃ b, c.Lands ptr offset width b target := by
  rcases h.locate_iff.mp hok with hlands | hroams
  · exact hlands
  · have hpermit := hroams.permit
    rw [h.config_eq, hstrict] at hpermit
    cases hpermit

/-- A strict load that succeeds reads bytes of the region of its pointer. -/
theorem InStep.loadBytes_lands (h : InStep config strays c live)
    (hstrict : config.untracked = .forbid) {ptr : Pointer} {offset : Int32} {width : Width}
    {bytes : List UInt8}
    (hok : (c.loadBytes ptr offset width).1 = .ok bytes) :
    ∃ b target, c.Lands ptr offset width b target ∧
      bytes = c.heap.bytes.read target.toNat width.bytes.toNat := by
  obtain ⟨target, hlocate, -, hbytes⟩ := loadBytes_eq_ok_iff.mp hok
  obtain ⟨b, hlands⟩ := h.lands hstrict hlocate
  exact ⟨b, target, hlands, hbytes⟩

/-- A strict store that succeeds writes there and nowhere else. -/
theorem InStep.storeBytes_lands (h : InStep config strays c live)
    (hstrict : config.untracked = .forbid) {ptr : Pointer} {offset : Int32} {width : Width}
    {bytes : List UInt8}
    (hok : (c.storeBytes ptr offset width bytes).1 = .ok ()) :
    ∃ b target, c.Lands ptr offset width b target ∧
      (c.storeBytes ptr offset width bytes).2.heap =
        { c.heap with bytes := c.heap.bytes.write target.toNat bytes } := by
  rcases c.storeBytes_cases ptr offset width bytes with
    ⟨⟨violation, herror⟩, -⟩ | ⟨target, hlocate, -, hstored⟩
  · cases herror.symm.trans hok
  · obtain ⟨b, hlands⟩ := h.lands hstrict hlocate
    refine ⟨b, target, hlands, ?_⟩
    rw [hstored]

/-- So under the strict policy all four kinds of access keep to the region of their pointer. -/
theorem InStep.isolated (h : InStep config strays c live) (hstrict : config.untracked = .forbid) :
    c.Isolated where
  load ptr offset access value hok := by
    have hheap : (c.load ptr offset access).2.heap = c.heap := by
      rw [load_eq, heap_loadBytes]
    obtain ⟨bytes, hbytes, hdecoded⟩ := Checker.load_eq_ok_iff.mp hok
    obtain ⟨b, target, hlands, rfl⟩ := h.loadBytes_lands hstrict hbytes
    exact ⟨b, target, hlands, hdecoded, hheap⟩
  loadTyped α _ ptr offset value hok := by
    have hheap : (c.loadTyped α ptr offset).2.heap = c.heap := by
      rw [loadTyped_eq, heap_loadBytes]
    obtain ⟨bytes, hbytes, hdecoded⟩ := loadTyped_eq_ok_iff.mp hok
    obtain ⟨b, target, hlands, rfl⟩ := h.loadBytes_lands hstrict hbytes
    exact ⟨b, target, hlands, hdecoded, hheap⟩
  store ptr offset access value hok := by
    obtain ⟨b, target, hlands, hheap⟩ := h.storeBytes_lands hstrict hok
    exact ⟨b, target, hlands, access.length_encode value, hheap⟩
  storeTyped α _ _ ptr offset value hok := by
    obtain ⟨b, target, hlands, hheap⟩ := h.storeBytes_lands hstrict hok
    exact ⟨b, target, hlands, LawfulScalar.length_toBytes value, hheap⟩

/-! ## What changes the bytes of a live region -/

/-- A store that goes wrong changes no byte, and one that succeeds changes no byte
of a region other than its pointer's. -/
theorem InStep.stores_of_changed (h : InStep config strays c live)
    (hstrict : config.untracked = .forbid)
    {b : Bounds} (hb : b ∈ live) {place : Nat} (hplace : b.Holds place)
    {ptr : Pointer} {offset : Int32} {width : Width} {bytes : List UInt8}
    (hlength : bytes.length = width.bytes.toNat)
    (hchanged : (c.storeBytes ptr offset width bytes).2.heap.bytes.get place ≠
      c.heap.bytes.get place) :
    (c.storeBytes ptr offset width bytes).1 = .ok () ∧ ∃ addr, ptr = .valid addr ∧ b.Spans addr := by
  rcases c.storeBytes_cases ptr offset width bytes with
    ⟨-, hrefused⟩ | ⟨target, hlocate, hok, hstored⟩
  · rw [hrefused] at hchanged
    exact absurd rfl hchanged
  · refine ⟨hok, ?_⟩
    obtain ⟨r, hr, ⟨addr, hptr, hspans, -⟩, hholds⟩ := h.lands hstrict hlocate
    rw [h.tracks.liveRegions_eq] at hr
    have hwritten : target.toNat ≤ place ∧ place < target.toNat + width.bytes.toNat := by
      by_contra hout
      rw [hstored] at hchanged
      exact hchanged (Bytes.get_write_of_outside (by omega))
    have hsame : r = b := by
      by_contra hne
      exact (h.tracks.separate.apart hr hb hne).not_holds (h.tracks.separate.fits r hr)
        (hholds place hwritten.1 hwritten.2) hplace
    exact ⟨addr, hptr, hsame ▸ hspans⟩

/-- One operation changes a byte of a live region only if it is a store through
that region. -/
theorem InStep.stores_of_step (h : InStep config strays c live)
    (hstrict : config.untracked = .forbid)
    {b : Bounds} (hb : b ∈ live) {place : Nat} (hplace : b.Holds place) (op : Op)
    (hchanged : (op.run c).heap.bytes.get place ≠ c.heap.bytes.get place) :
    op.StoresThrough c b := by
  cases op with
  | register addr size => exact absurd rfl hchanged
  | unregister addr => exact absurd rfl hchanged
  | advance ptr offset => exact absurd rfl hchanged
  | load ptr offset access =>
      rw [Op.run, load_eq, heap_loadBytes] at hchanged
      exact absurd rfl hchanged
  | store ptr offset access value =>
      exact h.stores_of_changed hstrict hb hplace (access.length_encode value) hchanged
  | loadTyped α ptr offset =>
      rw [Op.run, loadTyped_eq, heap_loadBytes] at hchanged
      exact absurd rfl hchanged
  | storeTyped ptr offset value =>
      exact h.stores_of_changed hstrict hb hplace (LawfulScalar.length_toBytes value) hchanged
  | allocate size =>
      rcases h.allocate size with ⟨hnone, -⟩ | ⟨addr, after, hsome, hallocates, -⟩
      · rw [Op.run, hnone] at hchanged
        exact absurd rfl hchanged
      · rw [Op.run, hsome, hallocates.bytes_eq] at hchanged
        exact absurd rfl hchanged
  | allocateZeros count size =>
      obtain ⟨-, -, -, hspares⟩ := h.allocateZeros count size
      exact absurd (hspares b hb place hplace) hchanged
  | free addr =>
      obtain ⟨-, -, hbytes, -⟩ := h.free addr
      rw [Op.run, hbytes] at hchanged
      exact absurd rfl hchanged
  | resize addr size =>
      obtain ⟨-, -, hspares, -⟩ := h.resize addr size
      exact absurd (hspares b hb place hplace) hchanged

/-- A region stays live until it is released. -/
theorem InStep.live_of_run {after : Checker Heap} {ops : List Op} {b : Bounds}
    (hrun : (system.within fun s op => ¬ op.Releases s b.start).Run c ops after)
    (h : InStep config strays c live) (hb : b ∈ live) :
    (system.within fun s _ => b ∈ s.table.liveRegions).Run c ops after ∧
      b ∈ after.table.liveRegions := by
  induction hrun generalizing live with
  | nil s =>
      rw [h.tracks.liveRegions_eq]
      exact ⟨.nil s, hb⟩
  | @cons s after op ops permitted tail ih =>
      have hlisted : b ∈ s.table.liveRegions := by
        rw [h.tracks.liveRegions_eq]
        exact hb
      obtain ⟨others, hothers, hkept⟩ := h.step_of_fair op permitted.1
      have hstill := (hkept b hb).resolve_right permitted.2
      obtain ⟨hrest, hafter⟩ := ih hothers hstill
      exact ⟨.cons ⟨permitted.1, hlisted⟩ hrest, hafter⟩

/-- With strict settings and fair use, loads and stores keep to the region of
their pointer.  From a state in which a region is live, through operations that do
not release it and one last operation that may, a byte of the region changes only
if one of them is a store through the region. -/
theorem isolated_of_reached (hstrict : config.untracked = .forbid) (hreached : Reached config c) :
    c.Isolated ∧
      ∀ b ∈ c.table.liveRegions, ∀ (ops : List Op) (later : Checker Heap) (last : Op),
        (system.within fun s op => ¬ op.Releases s b.start).Run c ops later → last.Fair later →
        ∀ place, b.Holds place →
          (last.run later).heap.bytes.get place ≠ c.heap.bytes.get place →
          ∃ before op rest middle, ops ++ [last] = before ++ op :: rest ∧
            system.Run c before middle ∧ op.StoresThrough middle b := by
  have hinstep := hreached.inStep
  refine ⟨hinstep.isolated hstrict, ?_⟩
  intro b hb ops later last hrun hfair place hplace hchanged
  obtain ⟨hlive, hlater⟩ := hinstep.live_of_run hrun hb
  have hwhole := hlive.snoc (show (system.within _).permits later last from ⟨hfair, hlater⟩)
  obtain ⟨before, op, rest, middle, hops, hbefore, ⟨-, hmiddle⟩, hchange⟩ :=
    hwhole.exists_change (fun s => s.heap.bytes.get place) hchanged
  have hstep := hinstep.run hbefore.of_within
  exact ⟨before, op, rest, middle, hops, hbefore.of_within,
    hstep.stores_of_step hstrict hmiddle hplace op hchange⟩

/-- The heap after a store whose outcome is known. -/
theorem heap_run_store {ptr : Pointer} {offset : Int32} {access : Access} {value : Int64}
    {data : List UInt8} {target : Addr} {heap : Heap} (hdata : access.encode value = data)
    (hlocate : (c.table.locate ptr offset access.width c.config.untracked).1 = .ok target)
    (hwrite : c.heap.write target data = (.ok (), heap)) :
    ((Op.store ptr offset access value).run c).heap = heap := by
  rw [Op.run, Checker.store, hdata, storeBytes_of_ok hlocate hwrite]

/-- A store into the allocation, through a pointer to its start, that changes its
fifth byte. -/
theorem isolated_of_reached_allocation :
    ∃ c : Checker Heap, c.Isolated ∧
      (Op.store (.valid 0x10000000) 4 ⟨.word, .unsigned⟩ 7).StoresThrough c ⟨0x10000000, 16⟩ := by
  obtain ⟨c, hreached, hlive, hbytes⟩ := exists_reached_allocation
  have hb : ⟨0x10000000, 16⟩ ∈ c.table.liveRegions := by
    rw [hlive]
    rfl
  obtain ⟨hisolated, hlifetime⟩ := isolated_of_reached rfl hreached
  have hinstep := hreached.inStep
  have hdata : Access.encode ⟨.word, .unsigned⟩ 7 = [7, 0, 0, 0] := by decide
  have hlocate : (c.table.locate (.valid 0x10000000) 4 .word c.config.untracked).1 =
      .ok 0x10000004 :=
    hinstep.tracks.locate_eq_ok_iff.mpr
      ⟨by decide, .inl ⟨_, hb, by decide, by decide, by decide⟩⟩
  have hmapped : c.heap.mapped 0x10000004 4 = .ok () := by
    rw [Heap.mapped, hinstep.zone_eq]
    decide
  have hstored := heap_run_store hdata hlocate (Heap.write_of_mapped (by decide) hmapped)
  have hplace : (0x10000004 : Addr).toNat = 0x10000004 := rfl
  have hchanged : ((Op.store (.valid 0x10000000) 4 ⟨.word, .unsigned⟩ 7).run c).heap.bytes.get
      0x10000004 ≠ c.heap.bytes.get 0x10000004 := by
    rw [hstored, hbytes, hplace, Bytes.get_write, Bytes.get_zeros]
    decide
  obtain ⟨before, op, rest, middle, hops, hbefore, hthrough⟩ :=
    hlifetime _ hb [] c (.store (.valid 0x10000000) 4 ⟨.word, .unsigned⟩ 7) (.nil c) trivial
      0x10000004 (by decide) hchanged
  refine ⟨c, hisolated, ?_⟩
  cases hbefore with
  | nil s =>
      obtain ⟨rfl, -⟩ := List.cons.inj hops
      exact hthrough
  | cons permitted tail =>
      obtain ⟨-, hrest⟩ := List.cons.inj hops
      simp at hrest

end Checker

end RegionGuard
