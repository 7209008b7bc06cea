import RegionGuard.Proofs.Checker.Run
import RegionGuard.Proofs.Heap.Gaps

/-!
# What a checker keeps of its heap

A checker touches its heap by handing out, taking back and changing bytes, whatever the
operation and whether it fails or not.  So it keeps every property of the extents that the
allocator keeps, and it keeps its configuration.  An address that it returns is one that
the allocator has handed out.  Nothing needs to be promised for that.
-/

namespace RegionGuard

/-- A property of heaps that the allocator keeps and that is not about the bytes. -/
structure Heap.Stable (P : Heap → Prop) : Prop where
  allocate : ∀ heap size, P heap → P (heap.allocate size).2
  release : ∀ heap addr, P heap → P (heap.release addr)
  refill : ∀ heap bytes, P heap → P { heap with bytes := bytes }

/-- Bytes have no part in how tidy a heap is. -/
theorem Heap.Tidy.refill {heap : Heap} (h : heap.Tidy) (bytes : Bytes) :
    Heap.Tidy { heap with bytes := bytes } :=
  ⟨⟨h.tiled.zone_fits, h.tiled.free_sorted, h.tiled.live_sorted, h.tiled.free_pos,
    h.tiled.live_pos, h.tiled.cover_eq⟩, h.spaced, h.free_aligned, h.live_aligned⟩

/-- Being tidy is one of the properties that the allocator keeps. -/
theorem Heap.stable_tidy : Heap.Stable Heap.Tidy :=
  ⟨fun _ size h => h.allocate size, fun _ addr h => h.release addr, fun _ bytes h => h.refill bytes⟩

/-- At most its bytes have changed, so nothing else has. -/
theorem Heap.Refills.eq {heap after : Heap} {place count : Nat}
    (h : heap.Refills after place count) : after = { heap with bytes := after.bytes } := by
  obtain ⟨hzone, hfree, hlive, -⟩ := h
  rcases after with ⟨zone, bytes, free, live⟩
  obtain rfl : zone = heap.zone := hzone
  obtain rfl : free = heap.free := hfree
  obtain rfl : live = heap.live := hlive
  rfl

namespace Checker

/-- The configuration is the same, and what the allocator keeps has been kept. -/
structure Upkeep (c after : Checker Heap) : Prop where
  config_eq : after.config = c.config
  keeps : ∀ P, Heap.Stable P → P c.heap → P after.heap

variable {c later after : Checker Heap}

/-- One step after the other keeps what both keep. -/
theorem Upkeep.trans (h : c.Upkeep later) (h' : later.Upkeep after) : c.Upkeep after where
  config_eq := h'.config_eq.trans h.config_eq
  keeps P hstable hheap := h'.keeps P hstable (h.keeps P hstable hheap)

/-- Only the table has changed. -/
theorem Upkeep.of_table (c : Checker Heap) (table : Table) :
    c.Upkeep ⟨table, c.heap, c.config⟩ :=
  ⟨rfl, fun _ _ hheap => hheap⟩

theorem Upkeep.refl (c : Checker Heap) : c.Upkeep c :=
  .of_table c c.table

/-- A step that only fills bytes in keeps everything. -/
theorem Upkeep.of_refills (c : Checker Heap) (table : Table) {heap : Heap} {place count : Nat}
    (h : c.heap.Refills heap place count) : c.Upkeep ⟨table, heap, c.config⟩ where
  config_eq := rfl
  keeps P hstable hheap := by
    show P heap
    rw [h.eq]
    exact hstable.refill _ _ hheap

/-- A load leaves the heap as it is. -/
theorem upkeep_loadBytes (c : Checker Heap) (ptr : Pointer) (offset : Int32) (width : Width) :
    c.Upkeep (c.loadBytes ptr offset width).2 := by
  rw [loadBytes_eq]
  exact .of_table c _

/-- A store fills bytes in, or fails and leaves the heap as it is. -/
theorem upkeep_storeBytes (c : Checker Heap) (ptr : Pointer) (offset : Int32) (width : Width)
    (bytes : List UInt8) : c.Upkeep (c.storeBytes ptr offset width bytes).2 := by
  rcases c.storeBytes_cases ptr offset width bytes with ⟨-, hrefused⟩ | ⟨target, -, -, hstored⟩
  · rw [hrefused]
    exact .of_table c _
  · rw [hstored]
    exact ⟨rfl, fun P hstable hheap => hstable.refill _ _ hheap⟩

/-- An allocation that cannot be registered is taken back. -/
theorem upkeep_allocate (c : Checker Heap) (size : UInt32) : c.Upkeep (c.allocate size).2 := by
  have hallocate : Allocator.allocate c.heap size = c.heap.allocate size := rfl
  have hkeeps : ∀ P, Heap.Stable P → P c.heap → P (c.heap.allocate size).2 :=
    fun P hstable hheap => hstable.allocate _ size hheap
  unfold Checker.allocate
  simp only [hallocate]
  rcases hresult : c.heap.allocate size with ⟨_ | addr, heap⟩ <;> rw [hresult] at hkeeps
  · exact ⟨rfl, hkeeps⟩
  · dsimp only
    rcases c.table.register addr size with ⟨violation | _, table⟩
    · exact ⟨rfl, fun P hstable hheap => hstable.release _ addr (hkeeps P hstable hheap)⟩
    · exact ⟨rfl, hkeeps⟩

/-- Allocation with zeros is an allocation and a change of bytes. -/
theorem upkeep_allocateZeros (c : Checker Heap) (count size : UInt32) :
    c.Upkeep (c.allocateZeros count size).2 := by
  have hallocate := c.upkeep_allocate (count * size)
  unfold Checker.allocateZeros
  split
  · exact .refl c
  · rcases hresult : c.allocate (count * size) with ⟨violation | _ | addr, later⟩ <;>
      rw [hresult] at hallocate
    · exact hallocate
    · exact hallocate
    · dsimp only
      rw [clearFresh_eq]
      exact hallocate.trans (.of_refills later _ (later.heap.refills_clear addr _))

theorem upkeep_free (c : Checker Heap) (addr : Addr) : c.Upkeep (c.free addr).2 := by
  by_cases hzero : addr = 0
  · rw [Checker.free, if_pos hzero]
    exact .refl c
  · rcases htable : c.table.unregister addr with ⟨violation | _, table⟩
    · rw [free_of_error hzero htable]
      exact .of_table c table
    · rw [free_of_ok hzero htable]
      exact ⟨rfl, fun P hstable hheap => hstable.release _ addr hheap⟩

theorem upkeep_moveTo (c : Checker Heap) (addr target : Addr) (len : UInt32) :
    c.Upkeep (c.moveTo addr target len).2 := by
  have hcopied : c.Upkeep ⟨c.table, (c.heap.copy addr target len).2, c.config⟩ :=
    .of_refills c _ (c.heap.refills_copy addr target len)
  rcases c.moveTo_cases addr target len with hfailed | ⟨hfreed, -⟩
  · rw [hfailed]
    exact hcopied
  · rw [hfreed]
    exact hcopied.trans (upkeep_free _ addr)

/-- Resizing is made of allocating, moving and freeing, which all keep it. -/
theorem upkeep_resize (c : Checker Heap) (addr : Addr) (size : UInt32) :
    c.Upkeep (c.resize addr size).2 := by
  unfold Checker.resize
  split
  · exact c.upkeep_allocate size
  · split
    · have hfree := c.upkeep_free addr
      rcases hresult : c.free addr with ⟨violation | _, later⟩ <;> rw [hresult] at hfree <;>
        exact hfree
    · rw [sizeAt_eq]
      have hsized : c.Upkeep ⟨(c.table.sizeAt addr).2, c.heap, c.config⟩ := .of_table c _
      rcases (c.table.sizeAt addr).1 with _ | old
      · exact hsized
      · have hallocate := hsized.trans (upkeep_allocate _ size)
        dsimp only
        rcases hresult : Checker.allocate ⟨(c.table.sizeAt addr).2, c.heap, c.config⟩ size with
          ⟨violation | _ | target, later⟩ <;> rw [hresult] at hallocate
        · exact hallocate
        · exact hallocate
        · exact hallocate.trans (later.upkeep_moveTo addr target _)

/-- Hence no operation of the checker breaks what the allocator keeps. -/
theorem Op.upkeep (op : Op) (c : Checker Heap) : c.Upkeep (op.run c) := by
  cases op with
  | register addr size => exact .of_table c _
  | unregister addr => exact .of_table c _
  | advance ptr offset => exact .of_table c _
  | load ptr offset access =>
      rw [Op.run, load_eq]
      exact c.upkeep_loadBytes ptr offset access.width
  | store ptr offset access value => exact c.upkeep_storeBytes ptr offset access.width _
  | loadTyped α ptr offset =>
      rw [Op.run, loadTyped_eq]
      exact c.upkeep_loadBytes ptr offset _
  | storeTyped ptr offset value => exact c.upkeep_storeBytes ptr offset _ _
  | allocate size => exact c.upkeep_allocate size
  | allocateZeros count size => exact c.upkeep_allocateZeros count size
  | free addr => exact c.upkeep_free addr
  | resize addr size => exact c.upkeep_resize addr size

/-! ## Where allocations come from -/

/-- A block that the checker answers with is one that its heap has handed out for this size. -/
theorem heap_allocate_of_allocate {size : UInt32} {addr : Addr}
    (hok : (c.allocate size).1 = .ok (some addr)) : (c.heap.allocate size).1 = some addr := by
  rcases c.allocate_cases size with
    ⟨heap, -, hnone⟩ | ⟨other, heap, table, hheap, -, hsome⟩ | ⟨violation, herror⟩
  · rw [hnone] at hok
    cases hok
  · rw [hsome] at hok
    rw [hheap]
    exact Except.ok.inj hok
  · rw [herror] at hok
    cases hok

/-- With zeros, it was handed out for the product. -/
theorem heap_allocate_of_allocateZeros {count size : UInt32} {addr : Addr}
    (hok : (c.allocateZeros count size).1 = .ok (some addr)) :
    (c.heap.allocate (count * size)).1 = some addr := by
  unfold Checker.allocateZeros at hok
  split at hok
  · cases hok
  · rcases hresult : c.allocate (count * size) with ⟨violation | _ | other, after⟩ <;>
      rw [hresult] at hok
    · cases hok
    · cases hok
    · obtain rfl := Option.some.inj (eq_of_clearFresh hok)
      exact heap_allocate_of_allocate (congrArg Prod.fst hresult)

/-- A region that has been resized is in a block handed out for the new size. -/
theorem heap_allocate_of_resize {addr target : Addr} {size : UInt32}
    (hok : (c.resize addr size).1 = .ok (some target)) :
    (c.heap.allocate size).1 = some target := by
  unfold Checker.resize at hok
  split at hok
  · exact heap_allocate_of_allocate hok
  · split at hok
    · split at hok <;> cases hok
    · rw [sizeAt_eq] at hok
      generalize (c.table.sizeAt addr).1 = size? at hok
      rcases size? with _ | old
      · cases hok
      · dsimp only at hok
        rcases hresult : Checker.allocate ⟨(c.table.sizeAt addr).2, c.heap, c.config⟩ size with
          ⟨violation | _ | other, after⟩ <;> rw [hresult] at hok
        · cases hok
        · cases hok
        · obtain rfl := Option.some.inj (eq_of_moveTo hok)
          exact @heap_allocate_of_allocate ⟨(c.table.sizeAt addr).2, c.heap, c.config⟩ _ _
            (congrArg Prod.fst hresult)

/-! ## Tidy heaps -/

/-- A fresh checker has a tidy heap. -/
theorem tidy_of_create {config : Config} (hcreate : create config = .ok c) : c.heap.Tidy := by
  have hplaced := checkPlacement_of_create hcreate
  obtain ⟨table, hcreate', -⟩ := exists_fresh hplaced
  obtain rfl : _ = c := Except.ok.inj (hcreate'.symm.trans hcreate)
  exact Heap.tidy_fresh (Nat.le_of_lt (Config.placed_of_checkPlacement hplaced).stop_lt)

/-- The heap of a checker in use is tidy. -/
theorem Reached.tidy {config : Config} (h : Reached config c) : c.heap.Tidy := by
  obtain ⟨fresh, ops, hcreate, hrun⟩ := h
  refine hrun.invariant (fun s => s.heap.Tidy) ?_ (tidy_of_create hcreate)
  intro s op _ htidy
  exact (op.upkeep s).keeps _ Heap.stable_tidy htidy

end Checker

end RegionGuard
