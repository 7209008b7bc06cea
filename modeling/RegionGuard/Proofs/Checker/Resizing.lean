import RegionGuard.Proofs.Checker.Failing
import RegionGuard.Proofs.Checker.Upkeep
import RegionGuard.Proofs.Table.Looking

/-!
# Resizing an allocation

A resize allocates before it gives back, so it needs a gap with room for the new size
while the old place is still taken, and the new place is never the old one.  Without such
a gap nothing happens that shows.  With one the bytes go to the new place, and pointers
to the old place, its end included, are good for nothing any more: the blocks of the
heap's zone are forbidden wherever no region is live.
-/

namespace RegionGuard

namespace Checker

/-- The operation is a load or a store through a pointer to the address. -/
def Op.Accesses (addr : Addr) : Op → Prop
  | load ptr _ _ => ptr = .valid addr
  | store ptr _ _ _ => ptr = .valid addr
  | loadTyped _ ptr _ => ptr = .valid addr
  | storeTyped ptr _ _ => ptr = .valid addr
  | _ => False

/-- The region `b` has been moved to `target` and has `size` bytes there. -/
structure Moves (c after : Checker Heap) (b : Bounds) (target : Addr) (size : UInt32) : Prop where
  /-- The new place is another one. -/
  target_ne : target ≠ b.start
  /-- The new region is live instead of the old one, and the other ones still are. -/
  liveRegions_eq : after.table.liveRegions = insert ⟨target, size⟩ (c.table.liveRegions \ {b})
  /-- The old region is not live. -/
  not_live : b ∉ after.table.liveRegions
  /-- The new region starts with the bytes of the old one. -/
  get_moved : ∀ k < min b.size.toNat size.toNat,
    after.heap.bytes.get (target.toNat + k) = c.heap.bytes.get (b.start.toNat + k)
  /-- No other byte has changed. -/
  get_eq : ∀ place, place < target.toNat ∨ target.toNat + min b.size.toNat size.toNat ≤ place →
    after.heap.bytes.get place = c.heap.bytes.get place
  /-- Every access through an address of the old region, its end included, is refused. -/
  refuses : ∀ addr, b.Spans addr → ∀ op : Op, op.Accesses addr → op.Fails after

variable {config : Config} {strays : Set Extent} {c after : Checker Heap} {live : Set Bounds}

/-! ## Where no region is live -/

theorem exists_error_of_ne_ok {α : Type} {result : Except Violation α}
    (h : ∀ value, result ≠ .ok value) : ∃ violation, result = .error violation := by
  cases result with
  | error violation => exact ⟨violation, rfl⟩
  | ok value => exact absurd rfl (h value)

/-- No access through an address of the heap's zone is accepted if no live region spans
the address. -/
theorem InStep.locate_ne_ok (hplaced : config.Placed) (h : InStep config strays c live)
    {addr : Addr} (hhas : config.heap.Has addr) (hno : ∀ r ∈ live, ¬ r.Spans addr)
    (offset : Int32) (width : Width) (target : Addr) :
    (c.table.locate (.valid addr) offset width c.config.untracked).1 ≠ .ok target := by
  intro hok
  rcases h.locate_iff.mp hok with ⟨r, hr, ⟨addr', hptr, hspans, -⟩, -⟩ | hroams
  · obtain rfl := Pointer.valid.inj hptr
    rw [h.tracks.liveRegions_eq] at hr
    exact hno r hr hspans
  · rw [← h.zone_eq] at hhas
    exact h.not_roams hplaced hhas hroams

/-- Heap memory in no live region cannot be accessed, freed or resized. -/
theorem InStep.fails_of_accesses (hplaced : config.Placed) (h : InStep config strays c live)
    {addr : Addr} (hhas : config.heap.Has addr) (hno : ∀ r ∈ live, ¬ r.Spans addr) {op : Op}
    (hop : op.Accesses addr) : op.Fails c := by
  have hrefused := h.locate_ne_ok hplaced hhas hno
  cases op with
  | load ptr offset access =>
      obtain rfl : ptr = .valid addr := hop
      refine exists_error_of_ne_ok fun value hok => ?_
      obtain ⟨bytes, hbytes, -⟩ := Checker.load_eq_ok_iff.mp hok
      obtain ⟨target, hlocate, -⟩ := loadBytes_eq_ok_iff.mp hbytes
      exact hrefused _ _ _ hlocate
  | loadTyped α ptr offset =>
      obtain rfl : ptr = .valid addr := hop
      refine exists_error_of_ne_ok fun value hok => ?_
      obtain ⟨bytes, hbytes, -⟩ := loadTyped_eq_ok_iff.mp hok
      obtain ⟨target, hlocate, -⟩ := loadBytes_eq_ok_iff.mp hbytes
      exact hrefused _ _ _ hlocate
  | store ptr offset access value =>
      obtain rfl : ptr = .valid addr := hop
      refine exists_error_of_ne_ok fun _ hok => ?_
      obtain ⟨target, hlocate, -⟩ := (fst_storeBytes_eq_ok_iff (access.length_encode value)).mp hok
      exact hrefused _ _ _ hlocate
  | storeTyped ptr offset value =>
      obtain rfl : ptr = .valid addr := hop
      refine exists_error_of_ne_ok fun _ hok => ?_
      obtain ⟨target, hlocate, -⟩ :=
        (fst_storeBytes_eq_ok_iff (LawfulScalar.length_toBytes value)).mp hok
      exact hrefused _ _ _ hlocate
  | _ => exact hop.elim

/-! ## The two outcomes -/

/-- To look up a size does not show. -/
theorem InStep.counts_sizeAt (h : InStep config strays c live) (addr : Addr) :
    (c.table.sizeAt addr).2.counts = c.table.counts := by
  have htwins : Table.Twins config.zones live c.table c.table :=
    ⟨h.tracks, h.tracks, fun _ => rfl, rfl⟩
  have hlooks : (Table.Op.sizeAt addr).Reads c.table := .inl trivial
  exact (htwins.read hlooks).counts_eq.symm

/-- What is left after a block has been copied and freed is the region at its new place. -/
theorem InStep.moves (hplaced : config.Placed) (h : InStep config strays c live) {b : Bounds}
    (hb : b ∈ live) (hhas : config.heap.Has b.start) {target : Addr} {size : UInt32}
    (hapart : ∀ r ∈ live, r.Apart ⟨target, size⟩)
    (hafter : InStep config strays after (insert ⟨target, size⟩ live \ {b}))
    (hbytes : after.heap.bytes =
      c.heap.bytes.copy b.start.toNat target.toNat (min b.size size).toNat) :
    c.Moves after b target size := by
  have hne : target ≠ b.start := (hapart b hb).start_ne.symm
  have hnew : (⟨target, size⟩ : Bounds) ≠ b := fun heq => hne (congrArg Bounds.start heq)
  have hlive := hafter.tracks.liveRegions_eq
  -- the new region is apart from the old one, as the other regions are
  have hno : ∀ addr, b.Spans addr → ∀ r ∈ insert (⟨target, size⟩ : Bounds) live \ {b},
      ¬ r.Spans addr := by
    intro addr hspans r ⟨hr, hrb⟩ hrspans
    rcases hr with rfl | hr
    · exact hapart b hb addr ⟨hspans, hrspans⟩
    · exact hrb (h.tracks.separate.eq_of_spans hr hb hrspans hspans)
  rw [toNat_min] at hbytes
  refine ⟨hne, ?_, ?_, ?_, ?_, ?_⟩
  · rw [hlive, h.tracks.liveRegions_eq, Set.insert_sdiff_singleton_comm hnew]
  · rw [hlive]
    exact fun hmem => hmem.2 rfl
  · intro k hk
    rw [hbytes]
    exact Bytes.get_copy_of_inside hk
  · intro place hplace
    rw [hbytes]
    exact Bytes.get_copy_of_outside hplace
  · intro addr hspans op hop
    exact hafter.fails_of_accesses hplaced ((h.has_of_spans hb hspans).mpr hhas)
      (hno addr hspans) hop

/-- In every state of a checker in use, an allocation is resized without a violation.  It
stays where it is exactly if no gap has room for the new size, and then no region, no
count and nothing of the heap has changed.  Else it is moved. -/
theorem resize_of_reached (hreached : Reached config c) {b : Bounds}
    (hb : b ∈ c.table.liveRegions) (hhas : c.heap.zone.Has b.start) {size : UInt32}
    (hsize : size ≠ 0) :
    ((c.resize b.start size).1 = .ok none ↔ c.heap.Lacks size) ∧
    (c.heap.Lacks size → c.Intact (c.resize b.start size).2 ∧
      (c.resize b.start size).2.table.counts = c.table.counts) ∧
    (¬ c.heap.Lacks size → ∃ target, (c.resize b.start size).1 = .ok (some target) ∧
      c.Moves (c.resize b.start size).2 b target size) := by
  have hinstep := hreached.inStep
  have hlacks := hreached.tidy.fst_allocate_eq_none_iff size
  obtain ⟨fresh, ops, hcreate, -⟩ := hreached
  have hplaced := Config.placed_of_checkPlacement (checkPlacement_of_create hcreate)
  rw [hinstep.zone_eq] at hhas
  rcases hinstep.resize_inside hb hhas hsize with
    ⟨hfull, hstays⟩ | ⟨target, heap, after, hroom, hmoved, hapart, hafter, hbytes⟩
  · have hnoroom : c.heap.Lacks size := hlacks.mp (congrArg Prod.fst hfull)
    rw [hstays]
    refine ⟨iff_of_true rfl hnoroom, ?_, fun hlack => absurd hnoroom hlack⟩
    intro _
    exact ⟨hinstep.intact (hinstep.of_table (hinstep.tracks.sizeAt b.start)) rfl,
      hinstep.counts_sizeAt b.start⟩
  · have hhasroom : ¬ c.heap.Lacks size := by
      intro hlack
      cases (congrArg Prod.fst hroom).symm.trans (hlacks.mpr hlack)
    rw [hmoved]
    refine ⟨iff_of_false (fun hnone => by cases hnone) hhasroom,
      fun hlack => absurd hlack hhasroom, ?_⟩
    intro _
    exact ⟨target, rfl, hinstep.moves hplaced hb hhas hapart hafter hbytes⟩

/-- The only allocation, of 16 bytes, gets 32 bytes elsewhere. -/
theorem resize_of_reached_carved :
    ∃ (c : Checker Heap) (target : Addr), c.table.liveRegions = {⟨0x10000000, 16⟩} ∧
      (c.resize 0x10000000 32).1 = .ok (some target) ∧
      (c.resize 0x10000000 32).2.table.liveRegions = {⟨target, 32⟩} := by
  obtain ⟨c, hreached, hlive, hheap⟩ := exists_reached_carved
  have hb : ⟨0x10000000, 16⟩ ∈ c.table.liveRegions := by
    rw [hlive]
    rfl
  have hhas : c.heap.zone.Has 0x10000000 := by
    rw [hheap]
    decide
  obtain ⟨-, -, hmoves⟩ := @resize_of_reached _ _ hreached _ hb hhas 32 (by decide)
  have hroom : ¬ c.heap.Lacks 32 := by
    rw [← hreached.tidy.fst_allocate_eq_none_iff, hheap]
    decide
  obtain ⟨target, htarget, hmoved⟩ := hmoves hroom
  refine ⟨c, target, hlive, htarget, ?_⟩
  rw [hmoved.liveRegions_eq, hlive, Set.sdiff_self, insert_empty_eq]

end Checker

end RegionGuard
