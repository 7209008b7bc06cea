import RegionGuard.Proofs.Checker.InStep

/-!
# The operations of the checker, one by one

Each operation leaves heap and table in step, for the same regions, one more or
one less, and spares the bytes of the regions that were live before.  Only a store
goes into the region of its pointer.
-/

namespace RegionGuard

namespace Checker

variable {config : Config} {strays : Set Extent} {c : Checker Heap} {live : Set Bounds}

/-! ## Registering and removing by hand -/

theorem register_eq (c : Checker Heap) (addr : Addr) (size : UInt32) :
    c.register addr size =
      ((c.table.register addr size).1, ⟨(c.table.register addr size).2, c.heap, c.config⟩) := rfl

theorem unregister_eq (c : Checker Heap) (addr : Addr) :
    c.unregister addr =
      ((c.table.unregister addr).1, ⟨(c.table.unregister addr).2, c.heap, c.config⟩) := rfl

/-- Registering a region outside the heap keeps table and heap in step, whether it succeeds or
not, if it is apart from the live regions whenever it succeeds. -/
theorem InStep.register (h : InStep config strays c live) {addr : Addr} {size : UInt32}
    (hapart : (c.register addr size).1 = .ok () → ∀ b ∈ live, b.Apart ⟨addr, size⟩)
    (houtside : (c.register addr size).1 = .ok () →
      ∀ a, Bounds.Spans ⟨addr, size⟩ a → ¬ config.heap.Has a) :
    ∃ more, live ⊆ more ∧ InStep config strays (c.register addr size).2 more := by
  rw [register_eq] at hapart houtside ⊢
  have hresult := h.tracks.fst_register addr size
  by_cases hrefused : addr = 0 ∨ addressCount ≤ addr.toNat + size.toNat
  · refine ⟨live, subset_rfl, ?_⟩
    rw [Table.register_error hrefused]
    exact h
  · have hstart : addr ≠ 0 := fun hstart => hrefused (.inl hstart)
    have hfits : ¬ addressCount ≤ addr.toNat + size.toNat := fun hover => hrefused (.inr hover)
    rw [if_neg hstart, if_neg hfits] at hresult
    have hnothas : ¬ config.heap.Has addr := houtside hresult addr (Bounds.spans_start ⟨addr, size⟩)
    obtain ⟨after, hafter, htracks⟩ :=
      h.tracks.register hstart (Nat.lt_of_not_le hfits) (hapart hresult)
    refine ⟨insert ⟨addr, size⟩ live, Set.subset_insert _ _, ?_⟩
    rw [hafter]
    refine ⟨h.config_eq, h.zone_eq, htracks, h.tiled, ?_, ?_, ?_⟩
    · rintro b (rfl | hb) hhas
      · exact absurd hhas hnothas
      · exact h.exists_extent b hb hhas
    · intro e he hstray
      obtain ⟨b, hb, hbacks⟩ := h.exists_region e he hstray
      exact ⟨b, Set.mem_insert_of_mem _ hb, hbacks⟩
    · rintro b (rfl | hb) hout
      · exact houtside hresult
      · exact h.outside b hb hout

/-- Taking a region out of the table only.  If it has an extent, this is a stray. -/
theorem InStep.remove (h : InStep config strays c live) {table : Table} {b : Bounds} (hb : b ∈ live)
    (hstrays : config.heap.Has b.start → ∀ e : Extent, e.start = b.start → e ∈ strays)
    (htracks : table.Tracks config.zones (live \ {b})) :
    InStep config strays ⟨table, c.heap, c.config⟩ (live \ {b}) where
  config_eq := h.config_eq
  zone_eq := h.zone_eq
  tracks := htracks
  tiled := h.tiled
  exists_extent r hr hhas := h.exists_extent r hr.1 hhas
  exists_region e he hstray := by
    obtain ⟨r, hr, hbacks⟩ := h.exists_region e he hstray
    refine ⟨r, ⟨hr, ?_⟩, hbacks⟩
    rintro rfl
    have husable := h.tiled.live_usable he (Extent.covers_start (h.tiled.live_pos e he))
    have hhas := h.usable_has husable (by rw [hbacks.start_eq])
    exact hstray (hstrays hhas e hbacks.start_eq)
  outside r hr hnot := h.outside r hr.1 hnot

/-- Taking a region out of the table and giving its extent back. -/
theorem InStep.give_back (h : InStep config strays c live) {table : Table} {b : Bounds}
    (hb : b ∈ live)
    (htracks : table.Tracks config.zones (live \ {b})) :
    InStep config strays ⟨table, c.heap.release b.start, c.config⟩ (live \ {b}) where
  config_eq := h.config_eq
  zone_eq := (Heap.zone_release _ _).trans h.zone_eq
  tracks := htracks
  tiled := h.tiled.release b.start
  exists_extent r hr hhas := by
    obtain ⟨e, he, hbacks⟩ := h.exists_extent r hr.1 hhas
    have hne : e.start ≠ b.start := fun hstart =>
      hr.2 (h.tracks.separate.eq_of_start hr.1 hb (hbacks.start_eq.symm.trans hstart))
    refine ⟨e, ?_, hbacks⟩
    show e ∈ (c.heap.release b.start).live
    rw [Heap.live_release]
    exact Extents.mem_erase_iff.mpr ⟨he, hne⟩
  exists_region e he hstray := by
    have he' : e ∈ (c.heap.release b.start).live := he
    rw [Heap.live_release] at he'
    obtain ⟨hmem, hne⟩ := Extents.mem_erase_iff.mp he'
    obtain ⟨r, hr, hbacks⟩ := h.exists_region e hmem hstray
    refine ⟨r, ⟨hr, ?_⟩, hbacks⟩
    rintro rfl
    exact hne hbacks.start_eq
  outside r hr hnot := h.outside r hr.1 hnot

/-- Removing a region keeps them in step as long as a block that starts there is counted as
a stray one.  The only region lost is the one that starts at this address. -/
theorem InStep.unregister (h : InStep config strays c live) {addr : Addr}
    (hstrays : config.heap.Has addr → ∀ e : Extent, e.start = addr → e ∈ strays) :
    ∃ fewer, InStep config strays (c.unregister addr).2 fewer ∧
      ∀ b ∈ live, b ∈ fewer ∨ b.start = addr ∧ (c.unregister addr).1 = .ok () := by
  rw [unregister_eq]
  by_cases hlive : ∃ b ∈ live, b.start = addr
  · obtain ⟨b, hb, rfl⟩ := hlive
    obtain ⟨after, hafter, htracks⟩ := h.tracks.unregister_of_mem hb
    rw [hafter]
    refine ⟨live \ {b}, h.remove hb hstrays htracks, fun r hr => ?_⟩
    by_cases hsame : r = b
    · exact .inr ⟨by rw [hsame], rfl⟩
    · exact .inl ⟨hr, hsame⟩
  · push Not at hlive
    obtain ⟨after, hafter, htracks⟩ := h.tracks.unregister_of_none hlive
    rw [hafter]
    exact ⟨live, h.of_table htracks, fun r hr => .inl hr⟩

/-! ## Allocating -/

theorem allocate_of_none {size : UInt32} {heap : Heap}
    (hheap : c.heap.allocate size = (none, heap)) :
    c.allocate size = (.ok none, ⟨c.table, heap, c.config⟩) := by
  have hheap' : Allocator.allocate c.heap size = (none, heap) := hheap
  simp only [allocate, hheap']

/-- A block that is found and can be registered is the answer. -/
theorem allocate_of_some {size : UInt32} {addr : Addr} {heap : Heap} {table : Table}
    (hheap : c.heap.allocate size = (some addr, heap))
    (htable : c.table.register addr size = (.ok (), table)) :
    c.allocate size = (.ok (some addr), ⟨table, heap, c.config⟩) := by
  have hheap' : Allocator.allocate c.heap size = (some addr, heap) := hheap
  simp only [allocate, hheap', htable]

/-- An allocation finds no room, or finds some and registers it, or fails. -/
theorem allocate_cases (c : Checker Heap) (size : UInt32) :
    (∃ heap, c.heap.allocate size = (none, heap) ∧
      c.allocate size = (.ok none, ⟨c.table, heap, c.config⟩)) ∨
    (∃ addr heap table, c.heap.allocate size = (some addr, heap) ∧
      c.table.register addr size = (.ok (), table) ∧
      c.allocate size = (.ok (some addr), ⟨table, heap, c.config⟩)) ∨
    ∃ violation, (c.allocate size).1 = .error violation := by
  rcases hheap : c.heap.allocate size with ⟨_ | addr, heap⟩
  · exact .inl ⟨heap, rfl, allocate_of_none hheap⟩
  · rcases htable : c.table.register addr size with ⟨violation | _, table⟩
    · have hheap' : Allocator.allocate c.heap size = (some addr, heap) := hheap
      refine .inr (.inr ⟨violation, ?_⟩)
      simp only [Checker.allocate, hheap', htable]
    · exact .inr (.inl ⟨addr, heap, table, rfl, htable, allocate_of_some hheap htable⟩)

/-- A region of the heap's zone, apart from the live ones, has been handed out and
registered, and no byte has changed. -/
structure Allocates (config : Config) (strays : Set Extent) (live : Set Bounds) (c : Checker Heap)
    (r : Bounds) (after : Checker Heap) : Prop where
  inStep : InStep config strays after (insert r live)
  has : config.heap.Has r.start
  apart : ∀ b ∈ live, b.Apart r
  bytes_eq : after.heap.bytes = c.heap.bytes

/-- Registering what the allocator has carved off. -/
theorem InStep.carve (h : InStep config strays c live) {size needed : UInt32} {found : Extent}
    (hneeded : Heap.needed? size = some needed) (hfound : found ∈ c.heap.free)
    (hlong : needed ≤ found.length) :
    ∃ table, c.table.register found.start size = (.ok (), table) ∧
      Allocates config strays live c ⟨found.start, size⟩
        ⟨table, c.heap.carve needed found, c.config⟩ := by
  let r : Bounds := ⟨found.start, size⟩
  have hround := le_roundUp (size.toNat + 1)
  have hlength := Heap.toNat_needed hneeded
  have hlong' : needed.toNat ≤ found.length.toNat := hlong
  obtain ⟨hfrom, hto⟩ := h.tiled.free_bounds hfound
  have hstop : found.stop = found.start.toNat + found.length.toNat := rfl
  have hzone : c.heap.zone.stop ≤ addressCount := h.tiled.zone_fits
  have hcovers : ∀ addr, r.Spans addr → found.Covers addr.toNat := by
    intro addr ⟨hrfrom, hrto⟩
    have hrto' : addr.toNat ≤ found.start.toNat + size.toNat := hrto
    refine ⟨hrfrom, ?_⟩
    omega
  have hstart : found.start ≠ 0 := by
    intro hzero
    have hfirst := Heap.firstUsable_pos c.heap.zone
    rw [hzero, UInt32.toNat_zero] at hfrom
    omega
  have hfits : r.Fits := by
    show found.start.toNat + size.toNat < addressCount
    omega
  have hapart := h.apart_of_free hfound hcovers
  obtain ⟨table, htable, htracks⟩ := h.tracks.register hstart hfits hapart
  have hbacks : Extent.Backs ⟨found.start, needed⟩ r := ⟨rfl, hlength⟩
  have hhas : config.heap.Has found.start :=
    h.usable_has (h.tiled.free_usable hfound (hcovers _ (Bounds.spans_start r))) rfl
  have hmem := h.tiled.mem_live_carve needed hfound
  refine ⟨table, htable, ⟨h.config_eq, h.zone_eq, htracks, ?_, ?_, ?_, ?_⟩, hhas, hapart, rfl⟩
  · exact h.tiled.carve hfound (by omega) hlong
  · rintro b (rfl | hb) hbhas
    · exact ⟨_, (hmem _).mpr (.inl rfl), hbacks⟩
    · obtain ⟨e, he, hebacks⟩ := h.exists_extent b hb hbhas
      exact ⟨e, (hmem e).mpr (.inr he), hebacks⟩
  · intro e he hstray
    rcases (hmem e).mp he with rfl | he'
    · exact ⟨r, Set.mem_insert _ _, hbacks⟩
    · obtain ⟨b, hb, hebacks⟩ := h.exists_region e he' hstray
      exact ⟨b, Set.mem_insert_of_mem _ hb, hebacks⟩
  · rintro b (rfl | hb) hout
    · exact absurd hhas hout
    · exact h.outside b hb hout

/-- An allocation finds no room and changes nothing, or it registers what the heap
hands out; there is no third way. -/
theorem InStep.allocate (h : InStep config strays c live) (size : UInt32) :
    (c.allocate size = (.ok none, c) ∧ c.heap.allocate size = (none, c.heap)) ∨
      ∃ addr after, c.allocate size = (.ok (some addr), after) ∧
        Allocates config strays live c ⟨addr, size⟩ after ∧
        c.heap.allocate size = (some addr, after.heap) := by
  rcases c.heap.allocate_cases size with hnone | ⟨needed, found, hneeded, hfound, hlong, hsome⟩
  · exact .inl ⟨allocate_of_none hnone, hnone⟩
  · obtain ⟨table, htable, hallocates⟩ := h.carve hneeded hfound hlong
    exact .inr ⟨found.start, _, allocate_of_some hsome htable, hallocates, hsome⟩

/-- Clearing changes bytes of the heap and nothing else. -/
theorem clearFresh_eq (c : Checker Heap) (addr : Addr) (size : UInt32) :
    (c.clearFresh addr size).2 = ⟨c.table, (c.heap.clear addr size).2, c.config⟩ := by
  have hclear : Allocator.clear c.heap addr size = c.heap.clear addr size := rfl
  rw [clearFresh]
  rcases hresult : c.heap.clear addr size with ⟨e | _, heap⟩ <;> simp only [hclear, hresult]

/-- It answers with the block, unless that is not backed by memory. -/
theorem fst_clearFresh (c : Checker Heap) (addr : Addr) (size : UInt32) :
    (c.clearFresh addr size).1 =
      if (c.heap.clear addr size).1 = .ok () then .ok (some addr)
      else .error (.unmapped addr size) := by
  have hclear : Allocator.clear c.heap addr size = c.heap.clear addr size := rfl
  rw [Checker.clearFresh]
  rcases hresult : c.heap.clear addr size with ⟨e | _, heap⟩ <;> simp [hclear, hresult]

/-- If it answers with a block, then with the one that was cleared. -/
theorem eq_of_clearFresh {addr : Addr} {size : UInt32} {found : Option Addr}
    (hok : (c.clearFresh addr size).1 = .ok found) : found = some addr := by
  rw [fst_clearFresh] at hok
  split at hok
  · exact (Except.ok.inj hok).symm
  · cases hok

/-- Allocation with zeros is allocation followed by clearing: no region is lost, and the bytes
of the live ones are spared. -/
theorem InStep.allocateZeros (h : InStep config strays c live) (count size : UInt32) :
    ∃ more, live ⊆ more ∧ InStep config strays (c.allocateZeros count size).2 more ∧
      c.Spares (c.allocateZeros count size).2 live := by
  unfold Checker.allocateZeros
  split
  · exact ⟨live, subset_rfl, h, .of_eq rfl live⟩
  · rcases h.allocate (count * size) with
      ⟨hnone, -⟩ | ⟨addr, after, hsome, ⟨hinstep, -, hapart, hbytes⟩, -⟩
    · rw [hnone]
      exact ⟨live, subset_rfl, h, .of_eq rfl live⟩
    · rw [hsome]
      dsimp only
      rw [clearFresh_eq]
      have hrefills := after.heap.refills_clear addr (count * size)
      refine ⟨_, Set.subset_insert _ _, hinstep.of_refills hrefills, ?_⟩
      refine .of_apart h.tracks.separate.fits hapart fun place hplace => ?_
      have hout : place < addr.toNat ∨ addr.toNat + (count * size).toNat ≤ place := by
        unfold Bounds.Holds at hplace
        dsimp only at hplace
        omega
      rw [← hbytes]
      exact hrefills.get_eq place hout

/-! ## Giving back -/

/-- Once the region is removed, the block goes back to the heap. -/
theorem free_of_ok {addr : Addr} (hne : addr ≠ 0) {table : Table}
    (htable : c.table.unregister addr = (.ok (), table)) :
    c.free addr = (.ok (), ⟨table, c.heap.release addr, c.config⟩) := by
  simp only [free, if_neg hne, htable]
  rfl

/-- If the region cannot be removed, the heap is not asked at all. -/
theorem free_of_error {addr : Addr} (hne : addr ≠ 0) {table : Table} {violation : Violation}
    (htable : c.table.unregister addr = (.error violation, table)) :
    c.free addr = (.error violation, ⟨table, c.heap, c.config⟩) := by
  simp only [free, if_neg hne, htable]

/-- The start of a live region can be freed, and only this region goes. -/
theorem InStep.free_of_mem (h : InStep config strays c live) {b : Bounds} (hb : b ∈ live) :
    ∃ after, c.free b.start = (.ok (), after) ∧ InStep config strays after (live \ {b}) ∧
      after.heap.bytes = c.heap.bytes := by
  obtain ⟨table, htable, htracks⟩ := h.tracks.unregister_of_mem hb
  exact ⟨_, free_of_ok (h.tracks.separate.start_ne b hb) htable, h.give_back hb htracks,
    Heap.bytes_release _ _⟩

/-- Any other address is refused, and the table still tracks the same regions. -/
theorem InStep.free_of_none (h : InStep config strays c live) {addr : Addr} (hne : addr ≠ 0)
    (hno : ∀ b ∈ live, b.start ≠ addr) :
    ∃ after, c.free addr = (.error (.invalidRemoval addr), after) ∧
      InStep config strays after live ∧ after.heap = c.heap := by
  obtain ⟨table, htable, htracks⟩ := h.tracks.unregister_of_none hno
  exact ⟨_, free_of_error hne htable, h.of_table htracks, rfl⟩

/-- In both cases table and heap stay in step, and no byte changes. -/
theorem InStep.free (h : InStep config strays c live) (addr : Addr) :
    ∃ fewer, InStep config strays (c.free addr).2 fewer ∧
      (c.free addr).2.heap.bytes = c.heap.bytes ∧
      ∀ b ∈ live, b ∈ fewer ∨ b.start = addr ∧ (c.free addr).1 = .ok () := by
  by_cases hzero : addr = 0
  · rw [Checker.free, if_pos hzero]
    exact ⟨live, h, rfl, fun r hr => .inl hr⟩
  · by_cases hlive : ∃ b ∈ live, b.start = addr
    · obtain ⟨b, hb, rfl⟩ := hlive
      obtain ⟨after, hafter, hinstep, hbytes⟩ := h.free_of_mem hb
      rw [hafter]
      refine ⟨_, hinstep, hbytes, fun r hr => ?_⟩
      by_cases hsame : r = b
      · exact .inr ⟨by rw [hsame], rfl⟩
      · exact .inl ⟨hr, hsame⟩
    · push Not at hlive
      obtain ⟨after, hafter, hinstep, hheap⟩ := h.free_of_none hzero hlive
      rw [hafter]
      exact ⟨live, hinstep, congrArg Heap.bytes hheap, fun r hr => .inl hr⟩

/-! ## Resizing -/

theorem sizeAt_eq (c : Checker Heap) (addr : Addr) :
    c.sizeAt addr = ((c.table.sizeAt addr).1, ⟨(c.table.sizeAt addr).2, c.heap, c.config⟩) := rfl

/-- A move fails at the copy, or it ends as the release of the old place does. -/
theorem moveTo_cases (c : Checker Heap) (addr target : Addr) (len : UInt32) :
    (c.moveTo addr target len).2 = ⟨c.table, (c.heap.copy addr target len).2, c.config⟩ ∨
      (c.moveTo addr target len).2 =
          ((Checker.mk c.table (c.heap.copy addr target len).2 c.config).free addr).2 ∧
        (((Checker.mk c.table (c.heap.copy addr target len).2 c.config).free addr).1 = .ok () →
          (c.moveTo addr target len).1 = .ok (some target)) := by
  have hcopy : Allocator.copy c.heap addr target len = c.heap.copy addr target len := rfl
  rw [moveTo]
  rcases hresult : c.heap.copy addr target len with ⟨e | _, heap⟩
  · left
    simp only [hcopy, hresult]
  · right
    simp only [hcopy, hresult]
    split
    · rename_i heq
      rw [heq]
      exact ⟨rfl, fun hok => by cases hok⟩
    · rename_i heq
      rw [heq]
      exact ⟨rfl, fun _ => rfl⟩

/-- A move fails, or it copies the bytes and frees the old place. -/
theorem moveTo_error_or_ok (c : Checker Heap) (addr target : Addr) (len : UInt32) :
    (∃ violation, (c.moveTo addr target len).1 = .error violation) ∨
    ∃ heap after, c.heap.copy addr target len = (.ok (), heap) ∧
      Checker.free ⟨c.table, heap, c.config⟩ addr = (.ok (), after) ∧
      c.moveTo addr target len = (.ok (some target), after) := by
  have hcopy : Allocator.copy c.heap addr target len = c.heap.copy addr target len := rfl
  rw [Checker.moveTo]
  rcases hcopied : c.heap.copy addr target len with ⟨e | _, heap⟩
  · refine .inl ⟨.unmapped addr len, ?_⟩
    simp only [hcopy, hcopied]
  · simp only [hcopy, hcopied]
    rcases hfreed : Checker.free ⟨c.table, heap, c.config⟩ addr with ⟨violation | _, after⟩
    · exact .inl ⟨violation, rfl⟩
    · exact .inr ⟨heap, after, rfl, hfreed, rfl⟩

/-- A move that succeeds returns where it went. -/
theorem eq_of_moveTo {addr target : Addr} {len : UInt32} {found : Option Addr}
    (hok : (c.moveTo addr target len).1 = .ok found) : found = some target := by
  rcases c.moveTo_error_or_ok addr target len with
    ⟨violation, herror⟩ | ⟨heap, after, -, -, hmoved⟩
  · rw [herror] at hok
    cases hok
  · rw [hmoved] at hok
    exact (Except.ok.inj hok).symm

/-- A move that can copy its bytes and free the old block answers with the new one. -/
theorem moveTo_of_ok {addr target : Addr} {len : UInt32} {heap : Heap} {after : Checker Heap}
    (hcopied : c.heap.copy addr target len = (.ok (), heap))
    (hfreed : Checker.free ⟨c.table, heap, c.config⟩ addr = (.ok (), after)) :
    c.moveTo addr target len = (.ok (some target), after) := by
  have hcopy : Allocator.copy c.heap addr target len = (.ok (), heap) := hcopied
  rw [Checker.moveTo]
  simp only [hcopy, hfreed]

/-- A move changes bytes of its target only, and at most loses the region it moves from, which
happens when it succeeds. -/
theorem InStep.moveTo (h : InStep config strays c live) (addr target : Addr) (len : UInt32) :
    ∃ fewer, InStep config strays (c.moveTo addr target len).2 fewer ∧
      (∀ place, place < target.toNat ∨ target.toNat + len.toNat ≤ place →
        (c.moveTo addr target len).2.heap.bytes.get place = c.heap.bytes.get place) ∧
      ∀ b ∈ live, b ∈ fewer ∨
        b.start = addr ∧ (c.moveTo addr target len).1 = .ok (some target) := by
  have hrefills := c.heap.refills_copy addr target len
  have hcopied := h.of_refills hrefills
  rcases c.moveTo_cases addr target len with hfailed | ⟨hfreed, hresult⟩
  · rw [hfailed]
    exact ⟨live, hcopied, hrefills.get_eq, fun r hr => .inl hr⟩
  · obtain ⟨fewer, hinstep, hbytes, hkept⟩ := hcopied.free addr
    rw [hfreed]
    refine ⟨fewer, hinstep, fun place hplace => ?_, fun r hr => ?_⟩
    · rw [hbytes]
      exact hrefills.get_eq place hplace
    · rcases hkept r hr with hr' | ⟨hstart, hok⟩
      · exact .inl hr'
      · exact .inr ⟨hstart, hresult hok⟩

/-- What is moved into a new region goes past all older ones, since they are apart
from it. -/
theorem InStep.moveTo_fresh (h : InStep config strays c live) {after : Checker Heap} {target : Addr}
    {size : UInt32} (hafter : InStep config strays after (insert ⟨target, size⟩ live))
    (hapart : ∀ b ∈ live, b.Apart ⟨target, size⟩) (hbytes : after.heap.bytes = c.heap.bytes)
    (addr : Addr) {len : UInt32} (hlen : len.toNat ≤ size.toNat) :
    ∃ others, InStep config strays (after.moveTo addr target len).2 others ∧
      c.Spares (after.moveTo addr target len).2 live ∧
      ∀ b ∈ live, b ∈ others ∨
        b.start = addr ∧ (after.moveTo addr target len).1 = .ok (some target) := by
  obtain ⟨others, hmoved, hcopied, hkept⟩ := hafter.moveTo addr target len
  refine ⟨others, hmoved, .of_apart h.tracks.separate.fits hapart fun place hplace => ?_,
    fun b hb => hkept b (Set.mem_insert_of_mem _ hb)⟩
  have hout : place < target.toNat ∨ target.toNat + len.toNat ≤ place := by
    unfold Bounds.Holds at hplace
    dsimp only at hplace
    omega
  rw [hcopied place hout, hbytes]

theorem toNat_min (a b : UInt32) : (min a b).toNat = min a.toNat b.toNat := by
  show (if a ≤ b then a else b).toNat = _
  split
  · exact (Nat.min_eq_left ‹a ≤ b›).symm
  · exact (Nat.min_eq_right (Nat.le_of_not_le ‹¬ a ≤ b›)).symm

/-- Resizing keeps table and heap in step.  It spares the bytes of the live regions, and the
only region that it can lose is the one to be resized, when it has been moved or when nothing is
to be left of it. -/
theorem InStep.resize (h : InStep config strays c live) (addr : Addr) (size : UInt32) :
    ∃ others, InStep config strays (c.resize addr size).2 others ∧
      c.Spares (c.resize addr size).2 live ∧
      ∀ b ∈ live, b ∈ others ∨
        b.start = addr ∧ (size = 0 ∨ ∃ target, (c.resize addr size).1 = .ok (some target)) := by
  unfold Checker.resize
  split
  · rcases h.allocate size with ⟨hnone, -⟩ | ⟨target, after, hsome, ⟨hinstep, -, -, hbytes⟩, -⟩
    · rw [hnone]
      exact ⟨live, h, .of_eq rfl live, fun r hr => .inl hr⟩
    · rw [hsome]
      exact ⟨_, hinstep, .of_eq hbytes live, fun r hr => .inl (Set.mem_insert_of_mem _ hr)⟩
  · split
    · rename_i hsize
      obtain ⟨fewer, hinstep, hbytes, hkept⟩ := h.free addr
      refine ⟨fewer, ?_, ?_, fun b hb =>
        (hkept b hb).imp_right fun hfreed => ⟨hfreed.1, .inl hsize⟩⟩
      · split <;> rename_i heq <;> rw [heq] at hinstep <;> exact hinstep
      · split <;> rename_i heq <;> rw [heq] at hbytes <;> exact .of_eq hbytes live
    · rw [sizeAt_eq]
      have hsized := h.of_table (h.tracks.sizeAt addr)
      rcases (c.table.sizeAt addr).1 with _ | old
      · exact ⟨live, hsized, .of_eq rfl live, fun r hr => .inl hr⟩
      · dsimp only
        rcases hsized.allocate size with
          ⟨hnone, -⟩ | ⟨target, after, hsome, ⟨hinstep, -, hapart, hbytes⟩, -⟩
        · rw [hnone]
          exact ⟨live, hsized, .of_eq rfl live, fun r hr => .inl hr⟩
        · rw [hsome]
          have hlen : (min old size).toNat ≤ size.toNat := by
            rw [toNat_min]
            exact Nat.min_le_right _ _
          obtain ⟨others, hmoved, hspares, hkept⟩ := h.moveTo_fresh hinstep hapart hbytes addr hlen
          exact ⟨others, hmoved, hspares, fun b hb =>
            (hkept b hb).imp_right fun hmoved => ⟨hmoved.1, .inr ⟨target, hmoved.2⟩⟩⟩

/-! ## Moving pointers, loading and storing -/

theorem InStep.advance (h : InStep config strays c live) (ptr : Pointer) (offset : Int32) :
    InStep config strays (c.advance ptr offset).2 live :=
  h.of_table (h.tracks.advance ptr offset c.config.untracked)

/-- A load leaves behind what its check leaves of the table, and the heap as it was. -/
theorem loadBytes_eq (c : Checker Heap) (ptr : Pointer) (offset : Int32) (width : Width) :
    (c.loadBytes ptr offset width).2 =
      ⟨(c.table.locate ptr offset width c.config.untracked).2, c.heap, c.config⟩ := by
  rw [loadBytes]
  rcases c.table.locate ptr offset width c.config.untracked with ⟨violation | addr, table⟩
  · rfl
  · dsimp only
    split <;> rfl

/-- So a load keeps table and heap in step. -/
theorem InStep.loadBytes (h : InStep config strays c live) (ptr : Pointer) (offset : Int32)
    (width : Width) : InStep config strays (c.loadBytes ptr offset width).2 live := by
  rw [loadBytes_eq]
  exact h.of_table (h.tracks.locate ptr offset width c.config.untracked)

/-- Decoding what has been loaded leaves no trace. -/
theorem load_eq (c : Checker Heap) (ptr : Pointer) (offset : Int32) (access : Access) :
    (c.load ptr offset access).2 = (c.loadBytes ptr offset access.width).2 := by
  rw [load]
  rcases c.loadBytes ptr offset access.width with ⟨violation | bytes, after⟩
  · rfl
  · dsimp only
    split <;> rfl

theorem loadTyped_eq (α : Type) [Scalar α] (c : Checker Heap) (ptr : Pointer) (offset : Int32) :
    (c.loadTyped α ptr offset).2 = (c.loadBytes ptr offset (Scalar.access α).width).2 := by
  rw [loadTyped]
  rcases c.loadBytes ptr offset (Scalar.access α).width with ⟨violation | bytes, after⟩
  · rfl
  · dsimp only
    split <;> rfl

/-- A store whose address passes the check and is backed by memory writes its bytes there. -/
theorem storeBytes_of_ok {ptr : Pointer} {offset : Int32} {width : Width} {bytes : List UInt8}
    {target : Addr} {heap : Heap}
    (hlocate : (c.table.locate ptr offset width c.config.untracked).1 = .ok target)
    (hwrite : c.heap.write target bytes = (.ok (), heap)) :
    c.storeBytes ptr offset width bytes =
      (.ok (), ⟨(c.table.locate ptr offset width c.config.untracked).2, heap, c.config⟩) := by
  have hwrite' : Segment.write c.heap target bytes = (.ok (), heap) := hwrite
  rw [storeBytes]
  rcases hresult : c.table.locate ptr offset width c.config.untracked with
    ⟨violation | other, table⟩
  · rw [hresult] at hlocate
    cases hlocate
  · rw [hresult] at hlocate
    obtain rfl := Except.ok.inj hlocate
    simp only [hwrite']

/-- A store changes nothing but the table, or writes its bytes where the check
says. -/
theorem storeBytes_cases (c : Checker Heap) (ptr : Pointer) (offset : Int32) (width : Width)
    (bytes : List UInt8) :
    ((∃ violation, (c.storeBytes ptr offset width bytes).1 = .error violation) ∧
      (c.storeBytes ptr offset width bytes).2 =
        ⟨(c.table.locate ptr offset width c.config.untracked).2, c.heap, c.config⟩) ∨
    ∃ target, (c.table.locate ptr offset width c.config.untracked).1 = .ok target ∧
      (c.storeBytes ptr offset width bytes).1 = .ok () ∧
      (c.storeBytes ptr offset width bytes).2 =
        ⟨(c.table.locate ptr offset width c.config.untracked).2,
          { c.heap with bytes := c.heap.bytes.write target.toNat bytes }, c.config⟩ := by
  rcases hlocate : (c.table.locate ptr offset width c.config.untracked).1 with violation | target
  · left
    rw [storeBytes]
    rcases hresult : c.table.locate ptr offset width c.config.untracked with ⟨answer, table⟩
    rw [hresult] at hlocate
    obtain rfl : answer = .error violation := hlocate
    exact ⟨⟨violation, rfl⟩, rfl⟩
  · rcases c.heap.write_cases target bytes with ⟨e, herror⟩ | hok
    · left
      have herror' : Segment.write c.heap target bytes = (.error e, c.heap) := herror
      rw [storeBytes]
      rcases hresult : c.table.locate ptr offset width c.config.untracked with ⟨answer, table⟩
      rw [hresult] at hlocate
      obtain rfl : answer = .ok target := hlocate
      refine ⟨⟨.unmapped target width.bytes, ?_⟩, ?_⟩ <;> simp only [herror']
    · right
      have hstored := storeBytes_of_ok hlocate hok
      rw [hstored]
      exact ⟨target, rfl, rfl, rfl⟩

/-- A store keeps table and heap in step, because bytes are no part of what they have to agree
on. -/
theorem InStep.storeBytes (h : InStep config strays c live) (ptr : Pointer) (offset : Int32)
    (width : Width) (bytes : List UInt8) :
    InStep config strays (c.storeBytes ptr offset width bytes).2 live := by
  have hlocated := h.of_table (h.tracks.locate ptr offset width c.config.untracked)
  rcases c.storeBytes_cases ptr offset width bytes with ⟨-, hrefused⟩ | ⟨target, -, -, hstored⟩
  · rw [hrefused]
    exact hlocated
  · rw [hstored]
    have hrefills : c.heap.Refills { c.heap with bytes := c.heap.bytes.write target.toNat bytes }
        target.toNat bytes.length :=
      ⟨rfl, rfl, rfl, fun _ hother => Bytes.get_write_of_outside hother⟩
    exact hlocated.of_refills hrefills

end Checker

end RegionGuard
