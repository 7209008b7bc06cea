import RegionGuard.Proofs.Checker.Landing

/-!
# Operations that fail

An operation that returns a violation has changed nothing: the same regions are live,
and the allocator and the bytes of the heap are as before.  Allocating does not fail at
all, and what is allocated or moved within the heap is backed by memory, so clearing
and copying it does not fail either.

Resizing memory that was registered outside the heap is the exception.  There the new
place is allocated first, then the copy fails because the old place is not in memory,
and the new place stays allocated.
-/

namespace RegionGuard

namespace Checker

/-- The operation returns a violation. -/
def Op.Fails (c : Checker Heap) : Op → Prop
  | register addr size => ∃ violation, (c.register addr size).1 = .error violation
  | unregister addr => ∃ violation, (c.unregister addr).1 = .error violation
  | advance _ _ => False
  | load ptr offset access => ∃ violation, (c.load ptr offset access).1 = .error violation
  | store ptr offset access value =>
    ∃ violation, (c.store ptr offset access value).1 = .error violation
  | loadTyped α ptr offset => ∃ violation, (c.loadTyped α ptr offset).1 = .error violation
  | storeTyped ptr offset value => ∃ violation, (c.storeTyped ptr offset value).1 = .error violation
  | allocate size => ∃ violation, (c.allocate size).1 = .error violation
  | allocateZeros count size => ∃ violation, (c.allocateZeros count size).1 = .error violation
  | free addr => ∃ violation, (c.free addr).1 = .error violation
  | resize addr size => ∃ violation, (c.resize addr size).1 = .error violation

/-- The operation gives another size to a live region outside the heap's zone. -/
def Op.ResizesOutside (c : Checker Heap) : Op → Prop
  | resize addr size =>
    size ≠ 0 ∧ ¬ c.heap.zone.Has addr ∧ ∃ b ∈ c.table.liveRegions, b.start = addr
  | _ => False

/-- The same regions are live, and the heap is the same with its extents and bytes. -/
structure Intact (c after : Checker Heap) : Prop where
  liveRegions_eq : after.table.liveRegions = c.table.liveRegions
  heap_eq : after.heap = c.heap

variable {config : Config} {strays : Set Extent} {c after : Checker Heap} {live : Set Bounds}

/-- Nothing is lost if the heap is the same and table and heap are still in step with the same
live regions. -/
theorem InStep.intact (h : InStep config strays c live) (hafter : InStep config strays after live)
    (hheap : after.heap = c.heap) : c.Intact after where
  liveRegions_eq := by rw [h.tracks.liveRegions_eq, hafter.tracks.liveRegions_eq]
  heap_eq := hheap

/-! ## Memory behind the regions -/

/-- The bytes of a live region in the heap's zone are in memory. -/
theorem InStep.mapped_of_has (h : InStep config strays c live) {b : Bounds} (hb : b ∈ live)
    (hhas : config.heap.Has b.start) {len : UInt32} (hlen : len.toNat ≤ b.size.toNat) :
    c.heap.mapped b.start len = .ok () := by
  have hstop := h.stop_lt hb hhas
  rw [← h.zone_eq] at hstop hhas
  exact (c.heap.mapped_eq_ok_iff b.start len).mpr ⟨hhas, by omega⟩

/-- Nothing outside the zone is. -/
theorem InStep.mapped_of_not_has (h : InStep config strays c live) {addr : Addr}
    (hout : ¬ config.heap.Has addr) (len : UInt32) :
    c.heap.mapped addr len = .error .notMapped := by
  rw [← h.zone_eq] at hout
  exact (c.heap.mapped_eq_notMapped_iff addr len).mpr hout

/-! ## Allocating -/

/-- Clearing a fresh allocation does not fail. -/
theorem InStep.clearFresh_ok (h : InStep config strays c live) {addr : Addr} {size : UInt32}
    (hb : ⟨addr, size⟩ ∈ live) (hhas : config.heap.Has addr) :
    (c.clearFresh addr size).1 = .ok (some addr) := by
  have hmapped := h.mapped_of_has hb hhas (Nat.le_refl _)
  have hclear : Allocator.clear c.heap addr size = c.heap.clear addr size := rfl
  have hok : (c.heap.clear addr size).1 = .ok () := by
    unfold Heap.clear
    rw [hmapped]
  rw [clearFresh]
  rcases hresult : c.heap.clear addr size with ⟨e | _, heap⟩
  · rw [hresult] at hok
    cases hok
  · simp only [hclear, hresult]

/-- An allocation has no error: without room it has no block, and a block that is found can be
registered. -/
theorem InStep.allocate_not_fails (h : InStep config strays c live) (size : UInt32) :
    ¬ (Op.allocate size).Fails c := by
  intro ⟨violation, herror⟩
  rcases h.allocate size with ⟨hnone, -⟩ | ⟨addr, after, hsome, -⟩
  · rw [hnone] at herror
    cases herror
  · rw [hsome] at herror
    cases herror

/-- The same holds with zeros, since a new block is backed by memory. -/
theorem InStep.allocateZeros_not_fails (h : InStep config strays c live) (count size : UInt32) :
    ¬ (Op.allocateZeros count size).Fails c := by
  intro ⟨violation, herror⟩
  unfold Checker.allocateZeros at herror
  split at herror
  · cases herror
  · rcases h.allocate (count * size) with ⟨hnone, -⟩ | ⟨addr, after, hsome, hallocates, -⟩
    · rw [hnone] at herror
      cases herror
    · rw [hsome] at herror
      dsimp only at herror
      rw [hallocates.inStep.clearFresh_ok (Set.mem_insert _ _) hallocates.has] at herror
      cases herror

/-! ## Giving back and moving -/

/-- A release that is refused leaves everything as it was. -/
theorem InStep.free_intact (h : InStep config strays c live) {addr : Addr}
    (hfails : (Op.free addr).Fails c) : c.Intact (c.free addr).2 := by
  obtain ⟨violation, herror⟩ := hfails
  by_cases hzero : addr = 0
  · rw [Checker.free, if_pos hzero] at herror
    cases herror
  · by_cases hlive : ∃ b ∈ live, b.start = addr
    · obtain ⟨b, hb, rfl⟩ := hlive
      obtain ⟨after, hafter, -⟩ := h.free_of_mem hb
      rw [hafter] at herror
      cases herror
    · push Not at hlive
      obtain ⟨after, hafter, hinstep, hheap⟩ := h.free_of_none hzero hlive
      rw [hafter]
      exact h.intact hinstep hheap

/-- A move between two places in memory does not fail. -/
theorem InStep.moveTo_of_mapped (h : InStep config strays c live) {b : Bounds} (hb : b ∈ live)
    {target : Addr} {len : UInt32} (hsource : c.heap.mapped b.start len = .ok ())
    (htarget : c.heap.mapped target len = .ok ()) :
    ∃ after, c.moveTo b.start target len = (.ok (some target), after) ∧
      InStep config strays after (live \ {b}) ∧
      after.heap.bytes = c.heap.bytes.copy b.start.toNat target.toNat len.toNat := by
  have hcopied : c.heap.copy b.start target len = (.ok (), { c.heap with
      bytes := c.heap.bytes.copy b.start.toNat target.toNat len.toNat }) := by
    unfold Heap.copy
    rw [hsource, htarget]
  have hrefills := c.heap.refills_copy b.start target len
  rw [hcopied] at hrefills
  obtain ⟨after, hfreed, hinstep, hbytes⟩ := (h.of_refills hrefills).free_of_mem hb
  exact ⟨after, moveTo_of_ok hcopied hfreed, hinstep, hbytes⟩

/-- A move from a place that is not in memory fails and changes nothing. -/
theorem moveTo_of_unmapped {addr target : Addr} {len : UInt32} {e : SegmentError}
    (hsource : c.heap.mapped addr len = .error e) :
    c.moveTo addr target len = (.error (.unmapped addr len), c) := by
  have hcopy : Allocator.copy c.heap addr target len = (.error e, c.heap) := by
    show c.heap.copy addr target len = _
    unfold Heap.copy
    rw [hsource]
  rw [moveTo]
  simp only [hcopy]

/-- A live region stays where it is if there is no room elsewhere. -/
theorem resize_of_none {addr : Addr} {size old : UInt32} (hne : addr ≠ 0) (hsize : size ≠ 0)
    (hold : (c.table.sizeAt addr).1 = some old)
    (hnone : Checker.allocate ⟨(c.table.sizeAt addr).2, c.heap, c.config⟩ size =
      (.ok none, after)) :
    c.resize addr size = (.ok none, after) := by
  rw [resize, if_neg hne, if_neg hsize, sizeAt_eq, hold]
  dsimp only
  rw [hnone]

/-- Else it is moved there. -/
theorem resize_of_some {addr target : Addr} {size old : UInt32} (hne : addr ≠ 0) (hsize : size ≠ 0)
    (hold : (c.table.sizeAt addr).1 = some old)
    (hsome : Checker.allocate ⟨(c.table.sizeAt addr).2, c.heap, c.config⟩ size =
      (.ok (some target), after)) :
    c.resize addr size = after.moveTo addr target (min old size) := by
  rw [resize, if_neg hne, if_neg hsize, sizeAt_eq, hold]
  dsimp only
  rw [hsome]

/-- Within the heap nothing happens if there is no room, and else the region is moved to
what has been allocated. -/
theorem InStep.resize_inside (h : InStep config strays c live) {b : Bounds} (hb : b ∈ live)
    (hhas : config.heap.Has b.start) {size : UInt32} (hsize : size ≠ 0) :
    (c.heap.allocate size = (none, c.heap) ∧
      c.resize b.start size = (.ok none, ⟨(c.table.sizeAt b.start).2, c.heap, c.config⟩)) ∨
      ∃ target heap after, c.heap.allocate size = (some target, heap) ∧
        c.resize b.start size = (.ok (some target), after) ∧
        (∀ r ∈ live, r.Apart ⟨target, size⟩) ∧
        InStep config strays after (insert ⟨target, size⟩ live \ {b}) ∧
        after.heap.bytes = c.heap.bytes.copy b.start.toNat target.toNat (min b.size size).toNat := by
  have hsized := h.of_table (h.tracks.sizeAt b.start)
  have hne := h.tracks.separate.start_ne b hb
  have hold := h.tracks.sizeAt_of_mem hb
  rcases hsized.allocate size with ⟨hnone, hfull⟩ | ⟨target, fresh, hsome, hallocates, hheap⟩
  · exact .inl ⟨hfull, resize_of_none hne hsize hold hnone⟩
  · have hlen : (min b.size size).toNat ≤ b.size.toNat ∧ (min b.size size).toNat ≤ size.toNat := by
      rw [toNat_min]
      exact ⟨Nat.min_le_left _ _, Nat.min_le_right _ _⟩
    have hinstep := hallocates.inStep
    have hb' := Set.mem_insert_of_mem ⟨target, size⟩ hb
    have hsource := hinstep.mapped_of_has hb' hhas hlen.1
    have htarget := hinstep.mapped_of_has (Set.mem_insert _ _) hallocates.has hlen.2
    obtain ⟨after, hmoved, hafter, hbytes⟩ := hinstep.moveTo_of_mapped hb' hsource htarget
    rw [hallocates.bytes_eq] at hbytes
    refine .inr ⟨target, fresh.heap, after, hheap, ?_, hallocates.apart, hafter, hbytes⟩
    rw [resize_of_some hne hsize hold hsome, hmoved]

/-- Outside it the move fails, and what has been allocated stays. -/
theorem InStep.resize_outside (h : InStep config strays c live) {b : Bounds} (hb : b ∈ live)
    (hout : ¬ config.heap.Has b.start) {size : UInt32} (hsize : size ≠ 0) :
    (c.heap.allocate size = (none, c.heap) ∧ (c.resize b.start size).1 = .ok none ∧
      c.Intact (c.resize b.start size).2) ∨
      ∃ target, (c.resize b.start size).1 = .error (.unmapped b.start (min b.size size)) ∧
        (c.resize b.start size).2.table.liveRegions = insert ⟨target, size⟩ live ∧
        c.heap.allocate size = (some target, (c.resize b.start size).2.heap) := by
  have hsized := h.of_table (h.tracks.sizeAt b.start)
  have hne := h.tracks.separate.start_ne b hb
  have hold := h.tracks.sizeAt_of_mem hb
  rcases hsized.allocate size with ⟨hnone, hfull⟩ | ⟨target, after, hsome, hallocates, hheap⟩
  · rw [resize_of_none hne hsize hold hnone]
    exact .inl ⟨hfull, rfl, h.intact hsized rfl⟩
  · rw [resize_of_some hne hsize hold hsome]
    rw [moveTo_of_unmapped (hallocates.inStep.mapped_of_not_has hout _)]
    exact .inr ⟨target, rfl, hallocates.inStep.tracks.liveRegions_eq, hheap⟩

/-- All other resizes that fail have changed nothing. -/
theorem InStep.resize_intact (h : InStep config strays c live) {addr : Addr} {size : UInt32}
    (hfails : (Op.resize addr size).Fails c) (hinside : ¬ (Op.resize addr size).ResizesOutside c) :
    c.Intact (c.resize addr size).2 := by
  obtain ⟨violation, herror⟩ := hfails
  by_cases hzero : addr = 0
  · rw [Checker.resize, if_pos hzero] at herror
    exact absurd ⟨violation, herror⟩ (h.allocate_not_fails size)
  · by_cases hsize : size = 0
    · rw [Checker.resize, if_neg hzero, if_pos hsize] at herror ⊢
      rcases hfree : c.free addr with ⟨violation | _, after⟩
      · have hintact := h.free_intact ⟨violation, congrArg Prod.fst hfree⟩
        rw [hfree] at hintact
        exact hintact
      · rw [hfree] at herror
        cases herror
    · by_cases hlive : ∃ b ∈ live, b.start = addr
      · obtain ⟨b, hb, rfl⟩ := hlive
        have hhas : config.heap.Has b.start := by
          by_contra hout
          rw [← h.zone_eq] at hout
          rw [← h.tracks.liveRegions_eq] at hb
          exact hinside ⟨hsize, hout, b, hb, rfl⟩
        rcases h.resize_inside hb hhas hsize with ⟨-, hok⟩ | ⟨target, heap, after, -, hok, -⟩ <;>
          rw [hok] at herror <;> cases herror
      · push Not at hlive
        have hnone := h.tracks.sizeAt_of_none hlive
        rw [Checker.resize, if_neg hzero, if_neg hsize, sizeAt_eq, hnone]
        exact h.intact (h.of_table (h.tracks.sizeAt addr)) rfl

/-! ## All operations -/

/-- A store that fails has changed nothing, because it checks before it writes. -/
theorem InStep.storeBytes_intact (h : InStep config strays c live) {ptr : Pointer} {offset : Int32}
    {width : Width} {bytes : List UInt8} {violation : Violation}
    (herror : (c.storeBytes ptr offset width bytes).1 = .error violation) :
    c.Intact (c.storeBytes ptr offset width bytes).2 := by
  refine h.intact (h.storeBytes ptr offset width bytes) ?_
  rcases c.storeBytes_cases ptr offset width bytes with ⟨-, hrefused⟩ | ⟨target, -, hok, -⟩
  · rw [hrefused]
  · cases hok.symm.trans herror

/-- An operation that fails has changed nothing, unless it resizes memory outside the
heap. -/
theorem InStep.intact_of_fails (h : InStep config strays c live) {op : Op} (hfails : op.Fails c)
    (hinside : ¬ op.ResizesOutside c) : c.Intact (op.run c) := by
  cases op with
  | register addr size =>
      obtain ⟨violation, herror⟩ := hfails
      rw [register_eq] at herror
      have hrefused : addr = 0 ∨ addressCount ≤ addr.toNat + size.toNat := by
        by_contra haccepted
        obtain ⟨hstart, hfits⟩ := not_or.mp haccepted
        rw [h.tracks.fst_register, if_neg hstart, if_neg hfits] at herror
        cases herror
      rw [Op.run, register_eq, Table.register_error hrefused]
      exact ⟨rfl, rfl⟩
  | unregister addr =>
      obtain ⟨violation, herror⟩ := hfails
      rw [unregister_eq] at herror
      by_cases hlive : ∃ b ∈ live, b.start = addr
      · cases (h.tracks.answers.unregister_ok addr hlive).symm.trans herror
      · push Not at hlive
        obtain ⟨table, htable, htracks⟩ := h.tracks.unregister_of_none hlive
        rw [Op.run, unregister_eq, htable]
        exact h.intact (h.of_table htracks) rfl
  | advance ptr offset => exact hfails.elim
  | load ptr offset access =>
      rw [Op.run, load_eq]
      exact h.intact (h.loadBytes ptr offset access.width) (c.heap_loadBytes _ _ _)
  | loadTyped α ptr offset =>
      rw [Op.run, loadTyped_eq]
      exact h.intact (h.loadBytes ptr offset (Scalar.access α).width) (c.heap_loadBytes _ _ _)
  | store ptr offset access value =>
      obtain ⟨violation, herror⟩ := hfails
      exact h.storeBytes_intact herror
  | storeTyped ptr offset value =>
      obtain ⟨violation, herror⟩ := hfails
      exact h.storeBytes_intact herror
  | allocate size => exact absurd hfails (h.allocate_not_fails size)
  | allocateZeros count size => exact absurd hfails (h.allocateZeros_not_fails count size)
  | free addr => exact h.free_intact hfails
  | resize addr size => exact h.resize_intact hfails hinside

/-- Whatever has been registered apart, allocated, stored and removed before, an
operation that fails changes nothing, with one exception.  Resizing a live region
outside the heap changes nothing either if the heap has no room; else it fails for lack
of memory behind the region, and leaves a new allocation. -/
theorem intact_of_openlyReached (hreached : OpenlyReached config c) :
    (∀ op : Op, op.Fails c → ¬ op.ResizesOutside c → c.Intact (op.run c)) ∧
    ∀ b ∈ c.table.liveRegions, ¬ c.heap.zone.Has b.start → ∀ size, size ≠ 0 →
      (c.heap.allocate size = (none, c.heap) ∧ (c.resize b.start size).1 = .ok none ∧
        c.Intact (c.resize b.start size).2) ∨
        ∃ target, (c.resize b.start size).1 = .error (.unmapped b.start (min b.size size)) ∧
          (c.resize b.start size).2.table.liveRegions =
            insert ⟨target, size⟩ c.table.liveRegions ∧
          c.heap.allocate size = (some target, (c.resize b.start size).2.heap) := by
  have hinstep := hreached.inStep
  refine ⟨fun op => hinstep.intact_of_fails, ?_⟩
  intro b hb hout size hsize
  rw [hinstep.zone_eq] at hout
  exact hinstep.resize_outside hb hout hsize

/-- A run to one region of 16 bytes far from the heap, with nothing allocated. -/
theorem exists_openlyReached_outside :
    ∃ c, OpenlyReached Config.default c ∧ c.table.liveRegions = {⟨0x1000, 16⟩} ∧
      c.heap = Heap.fresh Config.default.heap := by
  have hplaced : Config.default.checkPlacement = .ok () := by decide
  obtain ⟨table, hcreate, hinstep⟩ := exists_fresh hplaced
  have htracks : table.Tracks Config.default.zones ∅ := (hinstep ∅).tracks
  have hfar : ∀ addr, Bounds.Spans ⟨0x1000, 16⟩ addr → ¬ Config.default.heap.Has addr := by
    intro addr ⟨_, hto⟩ ⟨hfrom, _⟩
    have hto' : addr.toNat ≤ 4096 + 16 := hto
    have hfrom' : 268435456 ≤ addr.toNat := hfrom
    omega
  have hpromise : (Op.register 0x1000 16).Separate
      ⟨table, Heap.fresh Config.default.heap, Config.default⟩ := by
    intro _
    rw [htracks.liveRegions_eq]
    exact ⟨by simp, hfar⟩
  have hstart : OpenlyReached Config.default _ := ⟨_, [], hcreate, .nil _⟩
  have hreached := hstart.step hpromise
  obtain ⟨after, hafter, hregistered⟩ :=
    @Table.Tracks.register _ _ _ htracks 0x1000 16 (by decide) (by decide) (by simp)
  rw [Op.run, register_eq, hafter] at hreached
  refine ⟨_, hreached, ?_, rfl⟩
  rw [hregistered.liveRegions_eq, insert_empty_eq]

/-- To free an address where no region starts fails, and that region stays. -/
theorem intact_of_openlyReached_outside :
    ∃ c : Checker Heap, (c.free 0x2000).1 = .error (.invalidRemoval 0x2000) ∧
      (c.free 0x2000).2.table.liveRegions = {⟨0x1000, 16⟩} ∧ (c.free 0x2000).2.heap = c.heap := by
  obtain ⟨c, hreached, hlive, -⟩ := exists_openlyReached_outside
  have hno : ∀ b ∈ c.table.liveRegions, b.start ≠ 0x2000 := by
    rw [hlive]
    rintro b rfl
    decide
  have herror : (c.free 0x2000).1 = .error (.invalidRemoval 0x2000) := by
    obtain ⟨after, hfreed, -⟩ := hreached.inStep.free_of_none (by decide) hno
    rw [hfreed]
  obtain ⟨hfailing, -⟩ := intact_of_openlyReached hreached
  have hintact : c.Intact (c.free 0x2000).2 := hfailing (.free 0x2000) ⟨_, herror⟩ id
  exact ⟨c, herror, hintact.liveRegions_eq.trans hlive, hintact.heap_eq⟩

/-- Resizing that region fails, and yet memory has been allocated. -/
theorem not_intact_of_resize_outside :
    ∃ c, OpenlyReached Config.default c ∧
      (c.resize 0x1000 32).1 = .error (.unmapped 0x1000 16) ∧
      c.table.liveRegions = {⟨0x1000, 16⟩} ∧ c.heap.live = [] ∧
      (c.resize 0x1000 32).2.table.liveRegions = {⟨0x10000000, 32⟩, ⟨0x1000, 16⟩} ∧
      (c.resize 0x1000 32).2.heap.live = [⟨0x10000000, 40⟩] := by
  obtain ⟨c, hreached, hlive, hheap⟩ := exists_openlyReached_outside
  have hallocated : c.heap.allocate 32 =
      (some 0x10000000, (Heap.fresh Config.default.heap).carve 40 ⟨0x10000000, 0x1000000⟩) := by
    rw [hheap]
    rfl
  have hinstep := hreached.inStep
  have hmem : (⟨0x1000, 16⟩ : Bounds) ∈ c.table.liveRegions := by rw [hlive]; rfl
  have hcases := @InStep.resize_outside _ _ _ _ hinstep _ hmem (by decide) 32 (by decide)
  rw [hallocated] at hcases
  rcases hcases with ⟨hnone, -⟩ | ⟨target, herror, hregions, hplace⟩
  · cases hnone
  · obtain ⟨htarget, hafter⟩ := Prod.mk.inj hplace
    obtain rfl := Option.some.inj htarget
    refine ⟨c, hreached, herror, hlive, by rw [hheap]; rfl, ?_, ?_⟩
    · rw [hregions, hlive]
    · rw [← hafter]
      decide

end Checker

end RegionGuard
