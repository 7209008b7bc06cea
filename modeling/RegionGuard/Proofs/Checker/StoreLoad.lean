import RegionGuard.Proofs.Access.Codec
import RegionGuard.Proofs.Checker.Landing
import RegionGuard.Proofs.Table.Repeating

/-!
# Stores and loads at one place

A load and a store of the same width ask the same two questions, of the table and of the
memory.  The answer is the address that they go to, or the violation, so they fail
together.  Neither changes what a repeated question is answered: the table finds the same
bounds again, and what is backed by memory depends on the zone only.

So what has been stored is found by the load that follows, as the integer that the
loading access makes of the bytes.  Storing a loaded value back puts the same bytes where
they were.  Accesses typed with a machine integer type are the untyped ones with its
access.
-/

namespace RegionGuard

namespace Checker

/-- Where an access goes, or why it is refused. -/
def target (c : Checker Heap) (ptr : Pointer) (offset : Int32) (width : Width) :
    Except Violation Addr :=
  match (c.table.locate ptr offset width c.config.untracked).1 with
  | .error violation => .error violation
  | .ok addr =>
    match c.heap.mapped addr width.bytes with
    | .error _ => .error (.unmapped addr width.bytes)
    | .ok () => .ok addr

/-- The checker differs by a value that has been stored at an address. -/
structure Stored (c after : Checker Heap) (addr : Addr) (access : Access) (value : Int64) :
    Prop where
  /-- Zone and extents are the same, and so are all bytes outside the access. -/
  refills : c.heap.Refills after.heap addr.toNat access.width.bytes.toNat
  /-- The bytes of the access are the low bytes of the value. -/
  read_eq : after.heap.bytes.read addr.toNat access.width.bytes.toNat = access.encode value
  liveRegions_eq : after.table.liveRegions = c.table.liveRegions
  config_eq : after.config = c.config

/-- Typed accesses are the untyped ones with the access of the type. -/
structure TypedAlike {H : Type} [Allocator H] (c : Checker H) (α : Type) [Scalar α] : Prop where
  load_eq : ∀ ptr offset, c.load ptr offset (Scalar.access α) =
    ((c.loadTyped α ptr offset).1.map Scalar.toInt64, (c.loadTyped α ptr offset).2)
  storeTyped_eq : ∀ ptr offset (x : α),
    c.storeTyped ptr offset x = c.store ptr offset (Scalar.access α) (Scalar.toInt64 x)
  store_eq : ∀ ptr offset value,
    c.store ptr offset (Scalar.access α) value = c.storeTyped ptr offset (Scalar.ofInt64 value : α)

/-- What loads and stores of a checker have to do with each other. -/
structure StoreLoad (c : Checker Heap) : Prop where
  /-- A store that succeeds changes the bytes of the access at the checked address. -/
  stores : ∀ ptr offset a value, (c.store ptr offset a value).1 = .ok () →
    ∃ addr, (c.table.locate ptr offset a.width c.config.untracked).1 = .ok addr ∧
      c.Stored (c.store ptr offset a value).2 addr a value
  /-- A load that follows gives the one integer of its range with the residue of the value,
  whatever the sign of the store was. -/
  loads : ∀ ptr offset a b value, a.width = b.width → (c.store ptr offset a value).1 = .ok () →
    ∃ n, ((c.store ptr offset a value).2.load ptr offset b).1 = .ok n ∧
      b.InRange n.toInt ∧ n.toInt ≡ value.toInt [ZMOD 2 ^ (8 * b.width.bytes.toNat)] ∧
      ∀ m, b.InRange m → m ≡ value.toInt [ZMOD 2 ^ (8 * b.width.bytes.toNat)] → m = n.toInt
  /-- A loaded value can be stored back, also with the other sign, and no byte changes. -/
  storesBack : ∀ ptr offset a b value, a.width = b.width →
    (c.load ptr offset b).1 = .ok value →
    ((c.load ptr offset b).2.store ptr offset a value).1 = .ok () ∧
      ∀ place, ((c.load ptr offset b).2.store ptr offset a value).2.heap.bytes.get place =
        c.heap.bytes.get place
  /-- Each machine integer type loads and stores as its access does. -/
  typed : Scalar.ForEach fun α _ => c.TypedAlike α
  /-- A load and a store of the same width fail together, and for the same reason. -/
  failTogether : ∀ ptr offset a b value violation, a.width = b.width →
    ((c.load ptr offset a).1 = .error violation ↔
      (c.store ptr offset b value).1 = .error violation)

variable {c : Checker Heap} {ptr : Pointer} {offset : Int32} {a b : Access} {addr : Addr}
  {violation : Violation}

/-! ## One question -/

/-- A load reads where its target is, or gives the reason why there is none. -/
theorem loadBytes_eq_target (c : Checker Heap) (ptr : Pointer) (offset : Int32) (width : Width) :
    c.loadBytes ptr offset width =
      ((c.target ptr offset width).map fun addr =>
          c.heap.bytes.read addr.toNat width.bytes.toNat,
        ⟨(c.table.locate ptr offset width c.config.untracked).2, c.heap, c.config⟩) := by
  rcases c with ⟨table, heap, config⟩
  unfold loadBytes target
  dsimp only
  rcases table.locate ptr offset width config.untracked with ⟨violation | addr, table⟩
  · rfl
  · have hread : Segment.read heap addr width.bytes = heap.read addr width.bytes := rfl
    dsimp only
    rw [hread, Heap.read]
    rcases heap.mapped addr width.bytes with e | ⟨⟩ <;> rfl

/-- A store of as many bytes as its access covers writes there, or changes no byte. -/
theorem storeBytes_eq_target (c : Checker Heap) (ptr : Pointer) (offset : Int32) {width : Width}
    {bytes : List UInt8} (hlength : bytes.length = width.bytes.toNat) :
    c.storeBytes ptr offset width bytes =
      ((c.target ptr offset width).map fun _ => (),
        ⟨(c.table.locate ptr offset width c.config.untracked).2,
          match c.target ptr offset width with
          | .error _ => c.heap
          | .ok addr => { c.heap with bytes := c.heap.bytes.write addr.toNat bytes },
          c.config⟩) := by
  rcases c with ⟨table, heap, config⟩
  unfold storeBytes target
  dsimp only
  rcases table.locate ptr offset width config.untracked with ⟨violation | addr, table⟩
  · rfl
  · have hwrite : Segment.write heap addr bytes = heap.write addr bytes := rfl
    dsimp only
    rw [hwrite, heap.write_eq_mapped addr hlength]
    rcases heap.mapped addr width.bytes with e | ⟨⟩ <;> rfl

/-- There is a target if the check accepts the access and memory backs it. -/
theorem target_eq_ok_iff {width : Width} : c.target ptr offset width = .ok addr ↔
    (c.table.locate ptr offset width c.config.untracked).1 = .ok addr ∧
      c.heap.mapped addr width.bytes = .ok () := by
  unfold target
  rcases (c.table.locate ptr offset width c.config.untracked).1 with violation | found
  · simp
  · dsimp only
    constructor
    · intro htarget
      split at htarget
      · cases htarget
      · rename_i hmapped
        obtain rfl := Except.ok.inj htarget
        exact ⟨rfl, hmapped⟩
    · rintro ⟨hsame, hmapped⟩
      obtain rfl := Except.ok.inj hsame
      rw [hmapped]

/-- A repeated question has the same answer, whatever bytes have been stored. -/
theorem target_again (h : c.table.Linked) (bytes : Bytes) (width : Width) :
    target ⟨(c.table.locate ptr offset width c.config.untracked).2,
      { c.heap with bytes := bytes }, c.config⟩ ptr offset width = c.target ptr offset width := by
  have hmapped : ∀ addr, Heap.mapped { c.heap with bytes := bytes } addr width.bytes =
      c.heap.mapped addr width.bytes := fun _ => rfl
  unfold target
  dsimp only
  simp only [h.fst_locate_locate, hmapped]

/-! ## Loads and stores by their target -/

/-- A load gives what its access makes of the bytes at its target. -/
theorem fst_load_eq_ok_iff {value : Int64} :
    (c.load ptr offset a).1 = .ok value ↔ ∃ addr, c.target ptr offset a.width = .ok addr ∧
      a.decode (c.heap.bytes.read addr.toNat a.width.bytes.toNat) = some value := by
  rw [load_eq_ok_iff, loadBytes_eq_target]
  cases htarget : c.target ptr offset a.width <;> simp [Except.map]

/-- A load fails for the reason that it has no target, never in decoding. -/
theorem fst_load_eq_error_iff :
    (c.load ptr offset a).1 = .error violation ↔ c.target ptr offset a.width = .error violation := by
  rw [load, loadBytes_eq_target]
  cases htarget : c.target ptr offset a.width with
  | error other => simp [Except.map]
  | ok addr =>
      obtain ⟨n, hn⟩ := a.exists_decode (c.heap.bytes.length_read addr.toNat a.width.bytes.toNat)
      simp [Except.map, hn]

/-- A store fails for the same reason. -/
theorem fst_store_eq_error_iff {value : Int64} :
    (c.store ptr offset a value).1 = .error violation ↔
      c.target ptr offset a.width = .error violation := by
  rw [store, storeBytes_eq_target c ptr offset (a.length_encode value)]
  cases c.target ptr offset a.width <;> simp [Except.map]

theorem store_of_target {value : Int64} (h : c.target ptr offset a.width = .ok addr) :
    c.store ptr offset a value =
      (.ok (), ⟨(c.table.locate ptr offset a.width c.config.untracked).2,
        { c.heap with bytes := c.heap.bytes.write addr.toNat (a.encode value) }, c.config⟩) := by
  rw [store, storeBytes_eq_target c ptr offset (a.length_encode value), h]
  rfl

theorem exists_target {value : Int64} (h : (c.store ptr offset a value).1 = .ok ()) :
    ∃ addr, c.target ptr offset a.width = .ok addr := by
  cases htarget : c.target ptr offset a.width with
  | error violation =>
      rw [fst_store_eq_error_iff.mpr htarget] at h
      cases h
  | ok addr => exact ⟨addr, rfl⟩

/-! ## The laws -/

/-- After it the checker differs by the value. -/
theorem stored_store (hlinked : c.table.Linked) {value : Int64}
    (h : c.target ptr offset a.width = .ok addr) :
    c.Stored (c.store ptr offset a value).2 addr a value := by
  have hlength := a.length_encode value
  rw [store_of_target h]
  refine ⟨⟨rfl, rfl, rfl, fun other hother => ?_⟩, ?_, ?_, rfl⟩
  · rw [← hlength] at hother
    exact Bytes.get_write_of_outside hother
  · rw [← hlength]
    exact Bytes.read_write _ _ _
  · exact hlinked.liveRegions_locate ptr offset a.width c.config.untracked

/-- A load that follows a store makes its own value of the stored bytes. -/
theorem load_store (hlinked : c.table.Linked) (hwidth : a.width = b.width) {value n : Int64}
    (hok : (c.store ptr offset a value).1 = .ok ()) (hn : b.decode (a.encode value) = some n) :
    ((c.store ptr offset a value).2.load ptr offset b).1 = .ok n := by
  obtain ⟨addr, haddr⟩ := exists_target hok
  have hstored : c.Stored (c.store ptr offset a value).2 addr a value := stored_store hlinked haddr
  rw [fst_load_eq_ok_iff, ← hwidth]
  refine ⟨addr, ?_, by rw [hstored.read_eq]; exact hn⟩
  rw [store_of_target haddr, target_again hlinked]
  exact haddr

/-- Storing a loaded value back is possible, and puts the same bytes in place. -/
theorem store_load (hlinked : c.table.Linked) (hwidth : a.width = b.width) {value : Int64}
    (hload : (c.load ptr offset b).1 = .ok value) :
    ((c.load ptr offset b).2.store ptr offset a value).1 = .ok () ∧
      ∀ place, ((c.load ptr offset b).2.store ptr offset a value).2.heap.bytes.get place =
        c.heap.bytes.get place := by
  obtain ⟨addr, haddr, hdecode⟩ := fst_load_eq_ok_iff.mp hload
  have hagain : (c.load ptr offset b).2.target ptr offset a.width = .ok addr := by
    rw [load_eq, loadBytes_eq_target, hwidth]
    exact (target_again hlinked c.heap.bytes b.width).trans haddr
  have hbytes : (c.load ptr offset b).2.heap.bytes = c.heap.bytes := by
    rw [load_eq, loadBytes_eq_target]
  rw [store_of_target hagain, hbytes, Access.encode_of_decode hwidth hdecode]
  exact ⟨rfl, fun place => Bytes.get_write_read _ _ _ _⟩

/-- A type whose values agree with its access is loaded and stored like the access. -/
theorem typedAlike_of_agrees {H : Type} [Allocator H] (c : Checker H) {α : Type} [Scalar α]
    (h : Scalar.Agrees α) : c.TypedAlike α where
  load_eq ptr offset := by
    rw [load, loadTyped]
    rcases c.loadBytes ptr offset (Scalar.access α).width with ⟨violation | bytes, after⟩
    · rfl
    · dsimp only
      rw [← h.map_ofBytes?]
      cases (Scalar.ofBytes? bytes : Option α) <;> rfl
  storeTyped_eq ptr offset x := by
    rw [store, storeTyped, h.toBytes_eq]
  store_eq ptr offset value := by
    rw [store, storeTyped, h.toBytes_ofInt64]

theorem typedAlike {H : Type} [Allocator H] (c : Checker H) :
    Scalar.ForEach fun α _ => c.TypedAlike α :=
  Scalar.forEach_agrees.imp fun _ _ => c.typedAlike_of_agrees

/-- Wherever calls have taken the table, over any memory and under any configuration. -/
theorem storeLoad_of_served (h : c.table.Served) : c.StoreLoad := by
  have hlinked := h.linked
  refine ⟨fun ptr offset a value hok => ?_, fun ptr offset a b value hwidth hok => ?_,
    fun ptr offset a b value hwidth hload => store_load hlinked hwidth hload, c.typedAlike,
    fun ptr offset a b value violation hwidth => ?_⟩
  · obtain ⟨addr, haddr⟩ := exists_target hok
    exact ⟨addr, (target_eq_ok_iff.mp haddr).1, stored_store hlinked haddr⟩
  · obtain ⟨n, hn, hrange, hmod⟩ := Access.exists_decode_encode hwidth value
    have hmodulus : (b.width.modulus : Int) = 2 ^ (8 * b.width.bytes.toNat) := by
      rw [Width.modulus]
      norm_cast
    rw [hmodulus] at hmod
    refine ⟨n, load_store hlinked hwidth hok hn, hrange, hmod, fun m hm hmmod => ?_⟩
    refine hm.eq_of_modEq hrange ?_
    rw [hmodulus]
    exact hmmod.trans hmod.symm
  · rw [fst_load_eq_error_iff, fst_store_eq_error_iff, hwidth]

/-- The last two bytes of a region: a negative value is stored, and loaded without a
sign.  Through the invalid pointer nothing is. -/
theorem storeLoad_of_served_end :
    ∃ c : Checker Heap, c.table.Served ∧
      (c.store (.valid 0x10000000) 14 ⟨.half, .signed⟩ (-2)).1 = .ok () ∧
      ((c.store (.valid 0x10000000) 14 ⟨.half, .signed⟩ (-2)).2.load (.valid 0x10000000) 14
        ⟨.half, .unsigned⟩).1 = .ok 65534 ∧
      (c.store .invalid 14 ⟨.half, .signed⟩ (-2)).1 = .error (.invalidAccess invalidAddr 14 2) := by
  obtain ⟨t, ht⟩ := @Table.exists_reached_single [] 0x10000000 16 (by decide) (by decide)
  have hlocate : (t.locate (.valid 0x10000000) 14 .half strictConfig.untracked).1 =
      .ok 0x1000000e :=
    ht.tracks.locate_eq_ok_iff.mpr ⟨by decide, .inl ⟨_, rfl, by decide, by decide, by decide⟩⟩
  have hmapped : (Heap.fresh ⟨0x10000000, 0x1000⟩).mapped 0x1000000e Width.half.bytes = .ok () := by
    decide
  let c : Checker Heap := ⟨t, Heap.fresh ⟨0x10000000, 0x1000⟩, strictConfig⟩
  have htarget : c.target (.valid 0x10000000) 14 .half = .ok 0x1000000e :=
    target_eq_ok_iff.mpr ⟨hlocate, hmapped⟩
  have hlaws := storeLoad_of_served (c := c) ht.served
  have hok : (c.store (.valid 0x10000000) 14 ⟨.half, .signed⟩ (-2)).1 = .ok () :=
    congrArg Prod.fst (store_of_target (a := ⟨.half, .signed⟩) htarget)
  obtain ⟨n, hn, -, -, honly⟩ := hlaws.loads (.valid 0x10000000) 14 ⟨.half, .signed⟩
    ⟨.half, .unsigned⟩ (-2) rfl hok
  have hvalue : n.toInt = 65534 := (honly 65534 ⟨by decide, by decide⟩ (by decide)).symm
  obtain rfl : n = 65534 := Int64.toInt_inj.mp hvalue
  have hrefused : (c.load .invalid 14 ⟨.half, .unsigned⟩).1 =
      .error (.invalidAccess invalidAddr 14 2) := rfl
  exact ⟨c, ht.served, hok, hn,
    (hlaws.failTogether .invalid 14 ⟨.half, .unsigned⟩ ⟨.half, .signed⟩ (-2) _ rfl).mp hrefused⟩

end Checker

end RegionGuard
