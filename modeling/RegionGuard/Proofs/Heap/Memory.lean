import RegionGuard.Proofs.Heap.Tiling

/-!
# What operations of the heap do to its bytes

Storing, clearing and copying change no byte outside the range they fill, and
leave the extents alone; when they fail they change nothing.  A copy has the bytes of the
range it was made from.  Handing out a piece and taking one back change no byte at all.
-/

namespace RegionGuard

namespace Bytes

variable {m : Bytes} {place other : Nat}

theorem get_write_of_outside {bytes : List UInt8}
    (h : other < place ∨ place + bytes.length ≤ other) :
    (m.write place bytes).get other = m.get other := by
  rw [get_write]
  by_cases hbehind : place ≤ other
  · have hnone : bytes[other - place]? = none := List.getElem?_eq_none (by omega)
    rw [if_pos hbehind, hnone, Option.getD_none]
  · rw [if_neg hbehind]

theorem length_read (m : Bytes) (place count : Nat) : (m.read place count).length = count := by
  induction count generalizing place with
  | zero => rfl
  | succ count ih => rw [read, List.length_cons, ih]

/-- The bytes read are those of the places in turn. -/
theorem getElem?_read {count k : Nat} (hk : k < count) :
    (m.read place count)[k]? = some (m.get (place + k)) := by
  induction count generalizing place k with
  | zero => exact absurd hk (Nat.not_lt_zero k)
  | succ count ih =>
      cases k with
      | zero => rfl
      | succ k =>
          rw [read, List.getElem?_cons_succ, ih (Nat.lt_of_succ_lt_succ hk), Nat.add_right_comm]
          rfl

/-- What has been stored reads back. -/
theorem read_write (m : Bytes) (place : Nat) (bytes : List UInt8) :
    (m.write place bytes).read place bytes.length = bytes := by
  refine List.ext_getElem? fun k => ?_
  by_cases hk : k < bytes.length
  · rw [getElem?_read hk, get_write, if_pos (Nat.le_add_right place k), Nat.add_sub_cancel_left,
      List.getElem?_eq_getElem hk, Option.getD_some]
  · rw [List.getElem?_eq_none (by rw [length_read]; omega), List.getElem?_eq_none (by omega)]

/-- Storing the bytes that are there changes nothing. -/
theorem get_write_read (m : Bytes) (place count other : Nat) :
    (m.write place (m.read place count)).get other = m.get other := by
  by_cases hinside : place ≤ other ∧ other < place + count
  · obtain ⟨hfrom, hto⟩ := hinside
    rw [get_write, if_pos hfrom, getElem?_read (by omega), Option.getD_some,
      Nat.add_sub_cancel' hfrom]
  · refine get_write_of_outside ?_
    rw [length_read]
    omega

/-- Storing bytes one at a time keeps those at other places. -/
theorem get_foldl_set {moved : List (Nat × UInt8)} (h : ∀ p ∈ moved, p.1 ≠ other) :
    (moved.foldl (fun m p => m.set p.1 p.2) m).get other = m.get other := by
  induction moved generalizing m with
  | nil => rfl
  | cons p moved ih =>
      have hp := h p List.mem_cons_self
      rw [List.foldl_cons, ih fun q hq => h q (List.mem_cons_of_mem _ hq), get_set, if_neg hp]

/-- If one of them goes to a place and all that go there are the same, it is there in the
end. -/
theorem get_foldl_set_of_mem {moved : List (Nat × UInt8)} {byte : UInt8}
    (hmem : (other, byte) ∈ moved) (hsame : ∀ p ∈ moved, p.1 = other → p.2 = byte) :
    (moved.foldl (fun m p => m.set p.1 p.2) m).get other = byte := by
  induction moved generalizing m with
  | nil => cases hmem
  | cons p moved ih =>
      rw [List.foldl_cons]
      -- what is stored last stays, so the later ones are looked at first
      by_cases hlater : (other, byte) ∈ moved
      · exact ih hlater fun q hq => hsame q (List.mem_cons_of_mem _ hq)
      · have hnone : ∀ q ∈ moved, q.1 ≠ other := by
          intro q hq hplace
          have hbyte := hsame q (List.mem_cons_of_mem _ hq) hplace
          obtain rfl : q = (other, byte) := Prod.ext hplace hbyte
          exact hlater hq
        obtain rfl : p = (other, byte) := by simpa [hlater, eq_comm] using hmem
        rw [get_foldl_set hnone, get_set, if_pos rfl]

/-- The bytes that a copy stores are those of the source that are not zero, each as far behind
the target as it was behind the source. -/
theorem mem_shifted_iff {target count : Nat} {p : Nat × UInt8} :
    p ∈ m.shifted place target count ↔
      ∃ k < count, p.1 = target + k ∧ m.nonzero[place + k]? = some p.2 := by
  obtain ⟨goal, byte⟩ := p
  simp only [shifted, List.mem_filterMap, Prod.exists, Std.TreeMap.mem_toList_iff_getElem?_eq_some]
  constructor
  · intro ⟨source, byte', hsource, hshift⟩
    split at hshift
    · rename_i hrange
      obtain ⟨rfl, rfl⟩ := Prod.mk.inj (Option.some.inj hshift)
      refine ⟨source - place, by omega, by omega, ?_⟩
      rw [← hsource]
      congr 1
      omega
    · cases hshift
  · intro ⟨k, hk, hplace, hsource⟩
    refine ⟨place + k, byte, hsource, ?_⟩
    rw [if_pos (by omega)]
    simp only [Option.some.injEq, Prod.mk.injEq, and_true]
    omega

/-- The bytes of the range arrive, also where the ranges overlap. -/
theorem get_copy_of_inside {target count k : Nat} (hk : k < count) :
    (m.copy place target count).get (target + k) = m.get (place + k) := by
  have honly : ∀ p ∈ m.shifted place target count, p.1 = target + k →
      m.nonzero[place + k]? = some p.2 := by
    intro p hp hplace
    obtain ⟨j, -, hj, hsource⟩ := mem_shifted_iff.mp hp
    obtain rfl : j = k := by omega
    exact hsource
  cases hsource : m.nonzero[place + k]? with
  | some byte =>
      have hmem : (target + k, byte) ∈ m.shifted place target count :=
        mem_shifted_iff.mpr ⟨k, hk, rfl, hsource⟩
      have hsame : ∀ p ∈ m.shifted place target count, p.1 = target + k → p.2 = byte := by
        intro p hp hplace
        exact Option.some.inj ((honly p hp hplace).symm.trans hsource)
      have hbyte : m.get (place + k) = byte := by
        rw [get, hsource, Option.getD_some]
      rw [hbyte]
      exact get_foldl_set_of_mem hmem hsame
  | none =>
      have hnone : ∀ p ∈ m.shifted place target count, p.1 ≠ target + k := by
        intro p hp hplace
        cases (honly p hp hplace).symm.trans hsource
      have hcleared : (m.clear target count).get (target + k) = 0 := by
        rw [get_clear, if_pos (by omega)]
      have hzero : m.get (place + k) = 0 := by
        rw [get, hsource, Option.getD_none]
      rw [hzero, ← hcleared]
      exact get_foldl_set hnone

/-- A copy leaves the bytes outside of its target alone. -/
theorem get_copy_of_outside {target count : Nat} (h : other < target ∨ target + count ≤ other) :
    (m.copy place target count).get other = m.get other := by
  have hmoved : ∀ p ∈ m.shifted place target count, p.1 ≠ other := by
    intro p hp
    obtain ⟨k, hk, hplace, -⟩ := mem_shifted_iff.mp hp
    omega
  have hkept : (m.clear target count).get other = m.get other := by
    rw [get_clear, if_neg (by omega)]
  rw [copy]
  exact (get_foldl_set hmoved).trans hkept

end Bytes

namespace Heap

/-- At most the bytes of a range have changed. -/
structure Refills (heap after : Heap) (place count : Nat) : Prop where
  zone_eq : after.zone = heap.zone
  free_eq : after.free = heap.free
  live_eq : after.live = heap.live
  get_eq : ∀ other, other < place ∨ place + count ≤ other →
    after.bytes.get other = heap.bytes.get other

variable {heap after : Heap}

theorem Refills.refl (heap : Heap) (place count : Nat) : heap.Refills heap place count :=
  ⟨rfl, rfl, rfl, fun _ _ => rfl⟩

/-- Bytes have no part in how the zone is tiled. -/
theorem Refills.tiled {place count : Nat} (h : heap.Refills after place count)
    (htiled : heap.Tiled) : after.Tiled := by
  obtain ⟨hzone, hfree, hlive, -⟩ := h
  rcases htiled with ⟨hfits, hfreesorted, hlivesorted, hfreepos, hlivepos, hcover⟩
  rw [← hzone] at hfits hcover
  rw [← hfree] at hfreesorted hfreepos hcover
  rw [← hlive] at hlivesorted hlivepos hcover
  exact ⟨hfits, hfreesorted, hlivesorted, hfreepos, hlivepos, hcover⟩

/-! ## Ranges that are backed by memory -/

/-- The answer for a range in terms of unbounded numbers: it has to start within the zone, and
then it must not run past the end. -/
theorem mapped_eq (heap : Heap) (addr : Addr) (size : UInt32) :
    heap.mapped addr size =
      if heap.zone.start.toNat ≤ addr.toNat ∧ addr.toNat < heap.zone.stop then
        if addr.toNat + size.toNat ≤ heap.zone.stop then .ok () else .error .pastEnd
      else .error .notMapped := by
  simp only [mapped, Zone.covers, UInt32.lt_iff_toNat_lt, UInt32.le_iff_toNat_le,
    Bool.and_eq_true, decide_eq_true_eq]
  grind

/-- A range is backed if it starts at an address of the zone and does not run past its end. -/
theorem mapped_eq_ok_iff (heap : Heap) (addr : Addr) (size : UInt32) :
    heap.mapped addr size = .ok () ↔
      (heap.zone.start.toNat ≤ addr.toNat ∧ addr.toNat < heap.zone.stop) ∧
        addr.toNat + size.toNat ≤ heap.zone.stop := by
  grind [mapped_eq]

/-- One error is for a range that starts elsewhere, whatever its size. -/
theorem mapped_eq_notMapped_iff (heap : Heap) (addr : Addr) (size : UInt32) :
    heap.mapped addr size = .error .notMapped ↔
      ¬ (heap.zone.start.toNat ≤ addr.toNat ∧ addr.toNat < heap.zone.stop) := by
  grind [mapped_eq]

/-- The other one is for a range that starts within the zone and is too long. -/
theorem mapped_eq_pastEnd_iff (heap : Heap) (addr : Addr) (size : UInt32) :
    heap.mapped addr size = .error .pastEnd ↔
      (heap.zone.start.toNat ≤ addr.toNat ∧ addr.toNat < heap.zone.stop) ∧
        heap.zone.stop < addr.toNat + size.toNat := by
  grind [mapped_eq]

/-! ## Operations -/

/-- A range that is backed by memory is written. -/
theorem write_of_mapped {addr : Addr} {data : List UInt8} (hlength : data.length < addressCount)
    (hmapped : heap.mapped addr (UInt32.ofNat data.length) = .ok ()) :
    heap.write addr data = (.ok (), { heap with bytes := heap.bytes.write addr.toNat data }) := by
  unfold write
  rw [if_neg (Nat.not_le_of_lt hlength), hmapped]

/-- Storing either fails and changes nothing, or writes the bytes. -/
theorem write_cases (heap : Heap) (addr : Addr) (data : List UInt8) :
    (∃ e, heap.write addr data = (.error e, heap)) ∨
      heap.write addr data = (.ok (), { heap with bytes := heap.bytes.write addr.toNat data }) := by
  by_cases hlength : data.length < addressCount
  · cases hmapped : heap.mapped addr (UInt32.ofNat data.length) with
    | error e =>
        refine .inl ⟨e, ?_⟩
        unfold write
        rw [if_neg (Nat.not_le_of_lt hlength), hmapped]
    | ok => exact .inr (write_of_mapped hlength hmapped)
  · refine .inl ⟨.pastEnd, ?_⟩
    unfold write
    rw [if_pos (Nat.le_of_not_lt hlength)]

/-- Storing bytes asks whether their range is backed, and nothing else. -/
theorem write_eq_mapped (heap : Heap) (addr : Addr) {data : List UInt8} {size : UInt32}
    (hsize : data.length = size.toNat) :
    heap.write addr data =
      match heap.mapped addr size with
      | .error e => (.error e, heap)
      | .ok () => (.ok (), { heap with bytes := heap.bytes.write addr.toNat data }) := by
  have hlength : data.length < addressCount := hsize ▸ size.toNat_lt
  have hsame : UInt32.ofNat data.length = size := by rw [hsize, UInt32.ofNat_toNat]
  unfold write
  rw [if_neg (Nat.not_le_of_lt hlength), hsame]
  cases heap.mapped addr size <;> rfl

/-- A write succeeds exactly if its range is backed by memory. -/
theorem fst_write_eq_ok_iff (heap : Heap) (addr : Addr) {data : List UInt8} {size : UInt32}
    (hsize : data.length = size.toNat) :
    (heap.write addr data).1 = .ok () ↔ heap.mapped addr size = .ok () := by
  rw [heap.write_eq_mapped addr hsize]
  cases heap.mapped addr size <;> simp

/-- Clearing changes at most the bytes of its range. -/
theorem refills_clear (heap : Heap) (addr : Addr) (size : UInt32) :
    heap.Refills (heap.clear addr size).2 addr.toNat size.toNat := by
  unfold clear
  cases hmapped : heap.mapped addr size with
  | error e => exact .refl heap _ _
  | ok =>
      refine ⟨rfl, rfl, rfl, fun other hother => ?_⟩
      dsimp only
      rw [Bytes.get_clear, if_neg (by omega)]

/-- A copy changes at most the bytes of its target range. -/
theorem refills_copy (heap : Heap) (source target : Addr) (size : UInt32) :
    heap.Refills (heap.copy source target size).2 target.toNat size.toNat := by
  unfold copy
  cases hsource : heap.mapped source size with
  | error e => exact .refl heap _ _
  | ok =>
      cases htarget : heap.mapped target size with
      | error e => exact .refl heap _ _
      | ok => exact ⟨rfl, rfl, rfl, fun _ hother => Bytes.get_copy_of_outside hother⟩

/-- Giving back an extent leaves its bytes as they are. -/
theorem bytes_release (heap : Heap) (addr : Addr) : (heap.release addr).bytes = heap.bytes := by
  unfold release
  dsimp only
  split <;> rfl

theorem zone_release (heap : Heap) (addr : Addr) : (heap.release addr).zone = heap.zone := by
  unfold release
  dsimp only
  split <;> rfl

/-- Giving back takes the extent at the address off the live ones, if there is one. -/
theorem live_release (heap : Heap) (addr : Addr) :
    (heap.release addr).live = heap.live.erase addr := by
  by_cases hlive : ∃ e ∈ heap.live, e.start = addr
  · unfold release
    dsimp only
    split
    · rename_i hnone
      obtain ⟨e, he, hstart⟩ := hlive
      exact absurd hstart (Extents.lengthAt?_eq_none_iff.mp hnone e he)
    · rfl
  · push Not at hlive
    rw [release_of_none hlive, Extents.erase_of_forall_ne hlive]

end Heap

end RegionGuard
