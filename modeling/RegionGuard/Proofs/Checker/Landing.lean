import RegionGuard.Proofs.Checker.Run

/-!
# Where accesses land

A load or store that is accepted lands in the live region of its pointer, or it
roams: nobody tracks the address of its pointer, and accesses to untracked memory are
permitted.  The offset is no part of this second condition.  So an access that roams
can go to any mapped byte but the last one of the address space, also to memory of the
heap that is not allocated, and there is no other way to get there.
-/

namespace RegionGuard

namespace Checker

/-- An access of this width, at this offset from the pointer, goes to `target` and
to bytes of a live region only, the one that spans the pointer's address. -/
structure Lands (c : Checker Heap) (ptr : Pointer) (offset : Int32) (width : Width)
    (b : Bounds) (target : Addr) : Prop where
  live : b ∈ c.table.liveRegions
  spans : ∃ addr, ptr = .valid addr ∧ b.Spans addr ∧
    (target.toNat : Int) = (addr.toNat + offset.toInt) % addressCount
  holds : ∀ place, target.toNat ≤ place → place < target.toNat + width.bytes.toNat → b.Holds place

/-- An access of this width, at this offset from the pointer, goes to `target` because
nobody tracks the address of the pointer and that is permitted. -/
structure Roams (c : Checker Heap) (ptr : Pointer) (offset : Int32) (width : Width)
    (target : Addr) : Prop where
  permit : c.config.untracked = .permit
  untracked : ∃ addr, ptr = .valid addr ∧ (c.table.standing addr).1 = .untracked ∧
    (target.toNat : Int) = (addr.toNat + offset.toInt) % addressCount
  before_last : target.toNat + width.bytes.toNat ≤ addressCount - 1

/-- The access lands or roams, and its bytes are in memory. -/
def Reaches (c : Checker Heap) (ptr : Pointer) (offset : Int32) (width : Width)
    (target : Addr) : Prop :=
  ((∃ b, c.Lands ptr offset width b target) ∨ c.Roams ptr offset width target) ∧
    c.heap.mapped target width.bytes = .ok ()

variable {config : Config} {strays : Set Extent} {c : Checker Heap} {live : Set Bounds}
  {ptr : Pointer} {offset : Int32} {width : Width} {target : Addr}

/-- An access through an address lands or roams if the table accepts it. -/
theorem InStep.accepts_iff (h : InStep config strays c live) {addr : Addr}
    (hmoved : (target.toNat : Int) = (addr.toNat + offset.toInt) % addressCount) :
    c.table.Accepts live c.config.untracked addr width target ↔
      (∃ b, c.Lands (.valid addr) offset width b target) ∨
        c.Roams (.valid addr) offset width target := by
  have hwidth := width.bytes_pos
  have hopen : (∀ b ∈ live, ¬ b.Spans addr) ∧
      (c.table.entry (Slot.ofAddr addr)).fallback = Bounds.untracked ↔
        (c.table.standing addr).1 = .untracked := by
    rw [h.tracks.answers.untracked_iff, h.tracks.fallback_eq_untracked_iff]
  constructor
  · rintro (⟨b, hb, hspans, hfrom, hto⟩ | ⟨hno, hfallback, hpermit, hto⟩)
    · refine .inl ⟨b, ?_, ⟨addr, rfl, hspans, hmoved⟩, ?_⟩
      · rw [h.tracks.liveRegions_eq]
        exact hb
      · intro place hplace hplace'
        unfold Bounds.Holds
        omega
    · exact .inr ⟨hpermit, ⟨addr, rfl, hopen.mp ⟨hno, hfallback⟩, hmoved⟩, hto⟩
  · rintro (⟨b, hb, ⟨addr', hptr, hspans, -⟩, hholds⟩ | ⟨hpermit, ⟨addr', hptr, hstanding, -⟩, hto⟩)
    · obtain rfl := Pointer.valid.inj hptr
      rw [h.tracks.liveRegions_eq] at hb
      have hfirst := hholds target.toNat (Nat.le_refl _) (by omega)
      have hlast := hholds (target.toNat + width.bytes.toNat - 1) (by omega) (by omega)
      unfold Bounds.Holds at hfirst hlast
      exact .inl ⟨b, hb, hspans, hfirst.1, by omega⟩
    · obtain rfl := Pointer.valid.inj hptr
      obtain ⟨hno, hfallback⟩ := hopen.mpr hstanding
      exact .inr ⟨hno, hfallback, hpermit, hto⟩

/-- What a check accepts. -/
theorem InStep.locate_iff (h : InStep config strays c live) :
    (c.table.locate ptr offset width c.config.untracked).1 = .ok target ↔
      (∃ b, c.Lands ptr offset width b target) ∨ c.Roams ptr offset width target := by
  cases ptr with
  | invalid =>
      constructor
      · intro hok
        cases hok
      · rintro (⟨b, -, ⟨addr, hptr, -⟩, -⟩ | ⟨-, ⟨addr, hptr, -⟩, -⟩) <;> cases hptr
  | valid addr =>
      rw [h.tracks.locate_eq_ok_iff, Table.add_offset_eq_iff]
      constructor
      · intro ⟨hmoved, haccepts⟩
        exact (h.accepts_iff hmoved).mp haccepts
      · intro hreach
        have hmoved : (target.toNat : Int) = (addr.toNat + offset.toInt) % addressCount := by
          rcases hreach with ⟨b, -, ⟨addr', hptr, -, hmoved⟩, -⟩ | ⟨-, ⟨addr', hptr, -, hmoved⟩, -⟩
          all_goals
            obtain rfl := Pointer.valid.inj hptr
            exact hmoved
        exact ⟨hmoved, (h.accepts_iff hmoved).mpr hreach⟩

/-! ## Loads -/

/-- A load succeeds if the check lets it through to an address that memory backs, and gives the
bytes there. -/
theorem loadBytes_eq_ok_iff {bytes : List UInt8} :
    (c.loadBytes ptr offset width).1 = .ok bytes ↔
      ∃ target, (c.table.locate ptr offset width c.config.untracked).1 = .ok target ∧
        c.heap.mapped target width.bytes = .ok () ∧
        bytes = c.heap.bytes.read target.toNat width.bytes.toNat := by
  rw [loadBytes]
  rcases c.table.locate ptr offset width c.config.untracked with ⟨violation | target, table⟩
  · simp
  · have hread : Segment.read c.heap target width.bytes = c.heap.read target width.bytes := rfl
    dsimp only
    rw [hread, Heap.read]
    rcases hmapped : c.heap.mapped target width.bytes with e | ⟨⟩
    · simp [hmapped]
    · simp [hmapped, eq_comm]

theorem heap_loadBytes (c : Checker Heap) (ptr : Pointer) (offset : Int32) (width : Width) :
    (c.loadBytes ptr offset width).2.heap = c.heap := by
  rw [loadBytes_eq]

theorem load_eq_ok_iff {access : Access} {value : Int64} :
    (c.load ptr offset access).1 = .ok value ↔
      ∃ bytes, (c.loadBytes ptr offset access.width).1 = .ok bytes ∧
        access.decode bytes = some value := by
  rw [load]
  rcases c.loadBytes ptr offset access.width with ⟨violation | bytes, after⟩
  · simp
  · dsimp only
    cases hdecoded : access.decode bytes <;> simp [hdecoded]

theorem loadTyped_eq_ok_iff {α : Type} [Scalar α] {value : α} :
    (c.loadTyped α ptr offset).1 = .ok value ↔
      ∃ bytes, (c.loadBytes ptr offset (Scalar.access α).width).1 = .ok bytes ∧
        Scalar.ofBytes? bytes = some value := by
  rw [loadTyped]
  rcases c.loadBytes ptr offset (Scalar.access α).width with ⟨violation | bytes, after⟩
  · simp
  · dsimp only
    cases hdecoded : (Scalar.ofBytes? bytes : Option α) <;> simp [hdecoded]

/-- A load succeeds exactly if it reaches its target, and then gives what the bytes there
encode. -/
theorem InStep.load_eq_ok_iff (h : InStep config strays c live) {access : Access} {value : Int64} :
    (c.load ptr offset access).1 = .ok value ↔
      ∃ target, c.Reaches ptr offset access.width target ∧
        access.decode (c.heap.bytes.read target.toNat access.width.bytes.toNat) = some value := by
  rw [Checker.load_eq_ok_iff]
  constructor
  · intro ⟨bytes, hbytes, hdecoded⟩
    obtain ⟨target, hlocate, hmapped, rfl⟩ := loadBytes_eq_ok_iff.mp hbytes
    exact ⟨target, ⟨h.locate_iff.mp hlocate, hmapped⟩, hdecoded⟩
  · intro ⟨target, ⟨hreach, hmapped⟩, hdecoded⟩
    exact ⟨_, loadBytes_eq_ok_iff.mpr ⟨target, h.locate_iff.mpr hreach, hmapped, rfl⟩, hdecoded⟩

/-! ## Stores -/

/-- A store of as many bytes as its access covers succeeds under the same condition as a load.
-/
theorem fst_storeBytes_eq_ok_iff {bytes : List UInt8} (hlength : bytes.length = width.bytes.toNat) :
    (c.storeBytes ptr offset width bytes).1 = .ok () ↔
      ∃ target, (c.table.locate ptr offset width c.config.untracked).1 = .ok target ∧
        c.heap.mapped target width.bytes = .ok () := by
  rw [storeBytes]
  rcases c.table.locate ptr offset width c.config.untracked with ⟨violation | target, table⟩
  · simp
  · have hwrite : Segment.write c.heap target bytes = c.heap.write target bytes := rfl
    have hmapped := c.heap.fst_write_eq_ok_iff target hlength
    dsimp only
    rw [hwrite]
    rcases hresult : c.heap.write target bytes with ⟨e | _, heap⟩ <;> rw [hresult] at hmapped
    · simp [← hmapped]
    · simp [← hmapped]

/-- A store succeeds exactly if it reaches its target. -/
theorem InStep.store_eq_ok_iff (h : InStep config strays c live) {access : Access} {value : Int64} :
    (c.store ptr offset access value).1 = .ok () ↔
      ∃ target, c.Reaches ptr offset access.width target := by
  rw [Checker.store, fst_storeBytes_eq_ok_iff (access.length_encode value)]
  simp only [h.locate_iff, Reaches]

/-! ## Accesses of a checker in use -/

/-- No access roams from an address in the heap's zone. -/
theorem InStep.not_roams (hplaced : config.Placed) (h : InStep config strays c live) {addr : Addr}
    (hhas : c.heap.zone.Has addr) : ¬ c.Roams (.valid addr) offset width target := by
  rintro ⟨-, ⟨addr', hptr, hstanding, -⟩, -⟩
  obtain rfl := Pointer.valid.inj hptr
  rw [h.zone_eq] at hhas
  exact ((h.tracks.answers.untracked_iff addr).mp hstanding).2 (hplaced.reserved hhas)

/-- In every state under fair use exactly the accesses that land or roam succeed, a load
returns what the bytes it reaches stand for, and pointers to the heap do not roam. -/
theorem reaches_of_reached (hreached : Reached config c) (ptr : Pointer) (offset : Int32)
    (access : Access) :
    (∀ value, (c.load ptr offset access).1 = .ok value ↔
      ∃ target, c.Reaches ptr offset access.width target ∧
        access.decode (c.heap.bytes.read target.toNat access.width.bytes.toNat) = some value) ∧
    (∀ value, (c.store ptr offset access value).1 = .ok () ↔
      ∃ target, c.Reaches ptr offset access.width target) ∧
    ∀ addr target, ptr = .valid addr → c.heap.zone.Has addr →
      ¬ c.Roams ptr offset access.width target := by
  have hinstep := hreached.inStep
  obtain ⟨fresh, ops, hcreate, -⟩ := hreached
  have hplaced := Config.placed_of_checkPlacement (checkPlacement_of_create hcreate)
  refine ⟨fun _ => hinstep.load_eq_ok_iff, fun _ => hinstep.store_eq_ok_iff, ?_⟩
  rintro addr target rfl hhas
  exact hinstep.not_roams hplaced hhas

/-- With the default settings and nothing allocated, null with the right offset reaches
the first byte of the heap. -/
theorem exists_roams :
    ∃ fresh, create Config.default = .ok fresh ∧ fresh.table.liveRegions = ∅ ∧
      fresh.heap.bytes = Bytes.zeros ∧
      fresh.Reaches (.valid 0) 0x10000000 .byte 0x10000000 := by
  have hplaced : Config.default.checkPlacement = .ok () := by decide
  obtain ⟨table, hcreate, hinstep⟩ := exists_fresh hplaced
  have htracks := (hinstep ∅).tracks
  have hstanding : (table.standing 0).1 = .untracked := by
    rw [htracks.standing_of_none (by simp), if_neg (by decide)]
  refine ⟨_, hcreate, htracks.liveRegions_eq, rfl, .inr ⟨rfl, ⟨0, rfl, hstanding, ?_⟩, ?_⟩, ?_⟩
  · decide
  · decide
  · show (Heap.fresh Config.default.heap).mapped 0x10000000 1 = .ok ()
    decide

/-- So a byte of the heap is read although nothing is allocated. -/
theorem load_of_nothing_allocated :
    ∃ fresh, create Config.default = .ok fresh ∧ fresh.table.liveRegions = ∅ ∧
      (fresh.load (.valid 0) 0x10000000 ⟨.byte, .unsigned⟩).1 = .ok 0 := by
  obtain ⟨fresh, hcreate, hlive, hbytes, hreaches⟩ := exists_roams
  have hinstep := inStep_of_create hcreate ∅
  refine ⟨fresh, hcreate, hlive, hinstep.load_eq_ok_iff.mpr ⟨_, hreaches, ?_⟩⟩
  have hread : fresh.heap.bytes.read (0x10000000 : Addr).toNat Width.byte.bytes.toNat = [0] := by
    rw [hbytes]
    show [Bytes.zeros.get _] = _
    rw [Bytes.get_zeros]
  rw [hread]
  decide

/-- The same byte can be written. -/
theorem reaches_of_reached_null :
    ∃ c : Checker Heap, c.table.liveRegions = ∅ ∧
      (c.store (.valid 0) 0x10000000 ⟨.byte, .unsigned⟩ 7).1 = .ok () := by
  obtain ⟨fresh, hcreate, hlive, -, hreaches⟩ := exists_roams
  have hreached : Reached Config.default fresh := ⟨fresh, [], hcreate, .nil _⟩
  obtain ⟨-, hstore, -⟩ := reaches_of_reached hreached (.valid 0) 0x10000000 ⟨.byte, .unsigned⟩
  exact ⟨fresh, hlive, (hstore 7).mpr ⟨_, hreaches⟩⟩

end Checker

end RegionGuard
