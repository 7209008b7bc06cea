import RegionGuard.Proofs.Heap.Ledger
import Mathlib.Algebra.BigOperators.Group.Finset.Piecewise
import Mathlib.Order.Interval.Finset.Nat

/-!
# First fit

The free extents of a tidy heap are the gaps, in ascending order.  So the first one that
is long enough is the lowest gap that has room, and the answer to a request depends on
the live extents only.

A call that is granted or taken back moves one extent between the two lists.  How many
bytes are free is the number of places that the free extents cover, and it changes by the
length of that extent, whatever neighbours are cut off or joined.
-/

namespace RegionGuard

namespace Extents

variable {extents others : Extents} {e : Extent} {bound : Nat}

/-- In a sorted list the first extent with a property is the lowest one. -/
theorem Sorted.find?_eq_some_iff (h : Sorted extents) {p : Extent → Bool} :
    extents.find? p = some e ↔
      e ∈ extents ∧ p e = true ∧ ∀ x ∈ extents, p x = true → e.start ≤ x.start := by
  have hlowest : ∀ {y}, extents.find? p = some y →
      ∀ x ∈ extents, p x = true → y.start ≤ x.start := by
    intro y hfound x hx hpx
    obtain ⟨-, front, back, rfl, hfront⟩ := List.find?_eq_some_iff_append.mp hfound
    rcases List.mem_append.mp hx with hx' | hx'
    · have hfalse := hfront x hx'
      rw [hpx] at hfalse
      cases hfalse
    · rcases List.mem_cons.mp hx' with rfl | hbehind
      · exact UInt32.le_refl _
      · have hsorted := (List.pairwise_append.mp h).2.1
        exact UInt32.le_of_lt ((List.pairwise_cons.mp hsorted).1 x hbehind)
  constructor
  · intro hfound
    exact ⟨List.mem_of_find?_eq_some hfound, List.find?_some hfound, hlowest hfound⟩
  · rintro ⟨he, hpe, hleast⟩
    cases hfound : extents.find? p with
    | none => exact absurd hpe (List.find?_eq_none.mp hfound e he)
    | some y =>
        have hy := List.mem_of_find?_eq_some hfound
        have hle := hleast y hy (List.find?_some hfound)
        have hge := hlowest hfound e he hpe
        rw [h.eq_of_start he hy (UInt32.le_antisymm hle hge)]

/-! ## Totals -/

theorem total_cons (e : Extent) (extents : Extents) :
    total (e :: extents) = e.length.toNat + extents.total := rfl

/-- An extent covers as many places as it is long. -/
theorem sum_covers (e : Extent) (hbound : e.stop ≤ bound) :
    ∑ place ∈ Finset.range bound, (if e.Covers place then 1 else 0) = e.length.toNat := by
  have hstop : e.stop = e.start.toNat + e.length.toNat := rfl
  have hplaces : (Finset.range bound).filter e.Covers = Finset.Ico e.start.toNat e.stop := by
    ext place
    simp only [Finset.mem_filter, Finset.mem_range, Finset.mem_Ico, Extent.Covers]
    omega
  rw [← Finset.card_filter, hplaces, Nat.card_Ico]
  omega

/-- The sum of the lengths counts each place as often as it is covered. -/
theorem sum_cover (extents : Extents) (hbound : ∀ e ∈ extents, e.stop ≤ bound) :
    ∑ place ∈ Finset.range bound, extents.cover place = extents.total := by
  induction extents with
  | nil => simp [cover_nil, total]
  | cons e rest ih =>
      simp only [cover_cons, Finset.sum_add_distrib, total_cons]
      rw [sum_covers e (hbound e List.mem_cons_self),
        ih fun x hx => hbound x (List.mem_cons_of_mem _ hx)]

/-- Extents that cover the same places have the same total length, however they are cut. -/
theorem total_eq_of_cover_eq (hcover : ∀ place, extents.cover place = others.cover place) :
    extents.total = others.total := by
  have hbound : ∀ e : Extent, e.stop ≤ addressCount + addressCount := fun e =>
    Nat.add_le_add (Nat.le_of_lt e.start.toNat_lt) (Nat.le_of_lt e.length.toNat_lt)
  rw [← sum_cover extents fun e _ => hbound e, ← sum_cover others fun e _ => hbound e]
  exact Finset.sum_congr rfl fun place _ => hcover place

end Extents

namespace Heap

/-- The extent is a gap with room for an allocation of `size` bytes and what comes with
it. -/
def Room (heap : Heap) (size : UInt32) (e : Extent) : Prop :=
  heap.Gap e ∧ roundUp (size.toNat + 1) ≤ e.length.toNat

/-- With one extent more in use, the first heap is the second one. -/
structure Takes (heap after : Heap) (e : Extent) : Prop where
  zone_eq : after.zone = heap.zone
  bytes_eq : after.bytes = heap.bytes
  /-- No other extent that is in use starts where it does. -/
  start_ne : ∀ x ∈ heap.live, x.start ≠ e.start
  mem_live_iff : ∀ x, x ∈ after.live ↔ x = e ∨ x ∈ heap.live
  /-- Its bytes were free before. -/
  freeTotal_eq : after.freeTotal + e.length.toNat = heap.freeTotal

variable {heap after other : Heap} {e : Extent} {size needed : UInt32} {addr : Addr}

/-! ## The answer -/

/-- A length is needed exactly if it is the rounded one, and there is none if that does not fit
into 32 bits. -/
theorem needed?_eq_some_iff :
    needed? size = some needed ↔ needed.toNat = roundUp (size.toNat + 1) := by
  refine ⟨toNat_needed, fun hlength => ?_⟩
  have hfits : roundUp (size.toNat + 1) < addressCount := by
    rw [← hlength]
    exact needed.toNat_lt
  rw [needed?, if_pos hfits, ← hlength, UInt32.ofNat_toNat]

/-- An allocation answers with the start of the first free extent that is long enough. -/
theorem fst_allocate (heap : Heap) (size : UInt32) :
    (heap.allocate size).1 = (needed? size).bind fun needed =>
      (heap.free.find? (needed ≤ ·.length)).map (·.start) := by
  unfold allocate
  cases needed? size with
  | none => rfl
  | some needed =>
      cases hfound : heap.free.find? (needed ≤ ·.length) <;> simp [hfound]

/-- The first extent of the list is the lowest gap with room, as the list has the gaps in
ascending order. -/
theorem Tidy.find?_eq_some_iff (h : heap.Tidy) (hneeded : needed? size = some needed) :
    heap.free.find? (needed ≤ ·.length) = some e ↔
      heap.Room size e ∧ ∀ x, heap.Room size x → e.start ≤ x.start := by
  have hroom : ∀ x : Extent, heap.Room size x ↔ x ∈ heap.free ∧ needed ≤ x.length := by
    intro x
    rw [Room, h.mem_free_iff, UInt32.le_iff_toNat_le, toNat_needed hneeded]
  simp only [h.tiled.free_sorted.find?_eq_some_iff, hroom, decide_eq_true_eq, and_assoc, and_imp]

/-- The start of the lowest gap that has room is handed out. -/
theorem Tidy.fst_allocate_eq_some_iff (h : heap.Tidy) :
    (heap.allocate size).1 = some addr ↔ roundUp (size.toNat + 1) < addressCount ∧
      ∃ e, heap.Room size e ∧ e.start = addr ∧ ∀ x, heap.Room size x → addr ≤ x.start := by
  constructor
  · intro hsome
    rw [fst_allocate] at hsome
    obtain ⟨needed, hneeded, hmap⟩ := Option.bind_eq_some_iff.mp hsome
    obtain ⟨e, hfound, rfl⟩ := Option.map_eq_some_iff.mp hmap
    obtain ⟨hroom, hlowest⟩ := (h.find?_eq_some_iff hneeded).mp hfound
    refine ⟨?_, e, hroom, rfl, hlowest⟩
    rw [← toNat_needed hneeded]
    exact needed.toNat_lt
  · rintro ⟨hfits, e, hroom, rfl, hlowest⟩
    have hneeded : needed? size = some (UInt32.ofNat (roundUp (size.toNat + 1))) :=
      needed?_eq_some_iff.mpr (UInt32.toNat_ofNat_of_lt' hfits)
    rw [fst_allocate, hneeded, Option.bind_some,
      (h.find?_eq_some_iff hneeded).mpr ⟨hroom, hlowest⟩, Option.map_some]

/-- An allocation is granted exactly if some gap has room for it. -/
theorem Tidy.exists_allocate_iff (h : heap.Tidy) :
    (∃ addr, (heap.allocate size).1 = some addr) ↔
      roundUp (size.toNat + 1) < addressCount ∧ ∃ e, heap.Room size e := by
  rw [← Option.ne_none_iff_exists', ne_eq, h.fst_allocate_eq_none_iff]
  simp only [Lacks, Room, not_or, Nat.not_le, not_forall, Nat.not_lt, exists_prop]

/-- What is live decides what is answered. -/
theorem Tidy.fst_allocate_eq (h : heap.Tidy) (h' : other.Tidy) (hzone : other.zone = heap.zone)
    (hlive : other.live = heap.live) (size : UInt32) :
    (other.allocate size).1 = (heap.allocate size).1 := by
  rw [fst_allocate, fst_allocate, h.free_eq h' hzone hlive]

/-! ## What changes -/

theorem Takes.mem_iff (h : heap.Takes after e) (x : Extent) :
    x ∈ heap.live ↔ x ∈ after.live ∧ x.start ≠ e.start := by
  rw [h.mem_live_iff]
  constructor
  · intro hx
    exact ⟨.inr hx, h.start_ne x hx⟩
  · rintro ⟨rfl | hx, hne⟩
    · exact absurd rfl hne
    · exact hx

/-- Of tidy heaps only one becomes a given heap by taking a given extent. -/
theorem Takes.eq_of_tidy (h : heap.Takes after e) (h' : other.Takes after e) (htidy : heap.Tidy)
    (htidy' : other.Tidy) : other = heap := by
  have hzone : other.zone = heap.zone := h'.zone_eq.symm.trans h.zone_eq
  have hbytes : other.bytes = heap.bytes := h'.bytes_eq.symm.trans h.bytes_eq
  have hlive : other.live = heap.live :=
    htidy'.tiled.live_sorted.eq_of_mem_iff htidy.tiled.live_sorted fun x => by
      rw [h.mem_iff, h'.mem_iff]
  have hfree := htidy.free_eq htidy' hzone hlive
  cases heap
  cases other
  simp only at hzone hbytes hlive hfree
  rw [hzone, hbytes, hlive, hfree]

/-- Cutting off a piece takes this piece into use. -/
theorem Tiled.takes_carve (h : heap.Tiled) {found : Extent} (hfound : found ∈ heap.free)
    (hlong : needed ≤ found.length) : heap.Takes (heap.carve needed found) ⟨found.start, needed⟩ where
  zone_eq := rfl
  bytes_eq := rfl
  start_ne x hx := h.start_ne_of_free hfound x hx
  mem_live_iff := h.mem_live_carve needed hfound
  freeTotal_eq := by
    obtain ⟨-, -, hcover⟩ := h.carve_free hfound hlong
    have htotal := Extents.total_eq_of_cover_eq hcover
    rw [Extents.total_cons] at htotal
    exact (Nat.add_comm _ _).trans htotal

/-- An allocation that is granted takes the extent into use that it needs. -/
theorem Tiled.takes_allocate (h : heap.Tiled) (hsome : (heap.allocate size).1 = some addr) :
    ∃ e, e.Backs ⟨addr, size⟩ ∧ heap.Takes (heap.allocate size).2 e := by
  rcases heap.allocate_cases size with hnone | ⟨needed, found, hneeded, hfound, hlong, hcarved⟩
  · rw [hnone] at hsome
    cases hsome
  · rw [hcarved] at hsome ⊢
    obtain rfl := Option.some.inj hsome
    exact ⟨⟨found.start, needed⟩, ⟨rfl, toNat_needed hneeded⟩, h.takes_carve hfound hlong⟩

theorem allocate_of_none (hnone : (heap.allocate size).1 = none) :
    heap.allocate size = (none, heap) := by
  rcases heap.allocate_cases size with hsame | ⟨needed, found, -, -, -, hcarved⟩
  · exact hsame
  · rw [hcarved] at hnone
    cases hnone

/-- Taking back is the same change, read backwards. -/
theorem Tiled.takes_release (h : heap.Tiled) (he : e ∈ heap.live) :
    (heap.release e.start).Takes heap e where
  zone_eq := (zone_release heap e.start).symm
  bytes_eq := (bytes_release heap e.start).symm
  start_ne x hx := by
    rw [live_release] at hx
    exact (Extents.mem_erase_iff.mp hx).2
  mem_live_iff x := by
    rw [live_release, Extents.mem_erase_iff]
    constructor
    · intro hx
      by_cases hstart : x.start = e.start
      · exact .inl (h.live_sorted.eq_of_start hx he hstart)
      · exact .inr ⟨hx, hstart⟩
    · rintro (rfl | ⟨hx, -⟩)
      · exact he
      · exact hx
  freeTotal_eq := by
    obtain ⟨-, -, hcover⟩ := (h.returns he).reclaim
    have htotal := Extents.total_eq_of_cover_eq hcover
    rw [Extents.total_cons] at htotal
    rw [release_of_mem h.live_sorted he]
    exact (Nat.add_comm _ _).trans htotal.symm

/-- Taking back what has just been handed out restores the heap: cut off and joined again,
the free extents are what they were. -/
theorem Tidy.release_allocate (h : heap.Tidy) (hsome : (heap.allocate size).1 = some addr) :
    (heap.allocate size).2.release addr = heap := by
  obtain ⟨e, ⟨rfl, -⟩, htakes⟩ := h.tiled.takes_allocate hsome
  have htidy := h.allocate size
  have hlive := (htakes.mem_live_iff e).mpr (.inl rfl)
  exact htakes.eq_of_tidy (htidy.tiled.takes_release hlive) h (htidy.release e.start)

namespace Ledger

/-- What the allocator answers in a state, and what each call changes. -/
structure FirstFit (zone : Zone) (l : Ledger) : Prop where
  /-- A request is granted if its rounded length fits in 32 bits and some gap has room. -/
  granted_iff : ∀ size, (∃ addr, (l.heap.allocate size).1 = some addr) ↔
    roundUp (size.toNat + 1) < addressCount ∧ ∃ e, l.heap.Room size e
  /-- The answer is the start of the lowest gap that has room. -/
  answer_iff : ∀ size addr, (l.heap.allocate size).1 = some addr ↔
    roundUp (size.toNat + 1) < addressCount ∧
      ∃ e, l.heap.Room size e ∧ e.start = addr ∧ ∀ x, l.heap.Room size x → addr ≤ x.start
  /-- Whatever has happened before, it depends on the live extents only. -/
  answer_eq : ∀ other, Reached zone other → other.heap.live = l.heap.live →
    ∀ size, (other.heap.allocate size).1 = (l.heap.allocate size).1
  /-- Then an extent of the rounded length is in use there, and its bytes are not free. -/
  takes_allocate : ∀ size addr, (l.heap.allocate size).1 = some addr →
    ∃ e, e.Backs ⟨addr, size⟩ ∧ l.heap.Takes (l.heap.allocate size).2 e
  /-- A request that is not granted changes nothing. -/
  refused : ∀ size, (l.heap.allocate size).1 = none → l.heap.allocate size = (none, l.heap)
  /-- Taking back the start of a live extent undoes the taking of this extent. -/
  takes_release : ∀ e ∈ l.heap.live, (l.heap.release e.start).Takes l.heap e
  /-- Taking back any other address changes nothing. -/
  ignored : ∀ addr, (∀ e ∈ l.heap.live, e.start ≠ addr) → l.heap.release addr = l.heap
  /-- Taking back what has just been handed out restores everything. -/
  restored : ∀ size addr, (l.heap.allocate size).1 = some addr →
    (l.heap.allocate size).2.release addr = l.heap

variable {zone : Zone} {l : Ledger}

/-- Whatever has been called before, over any zone in the address space. -/
theorem firstFit_of_reached (hfits : zone.stop ≤ addressCount) (h : Reached zone l) :
    FirstFit zone l := by
  have hkept := h.kept hfits
  have htidy := hkept.tidy
  refine ⟨fun _ => htidy.exists_allocate_iff, fun _ _ => htidy.fst_allocate_eq_some_iff, ?_,
    fun _ _ => htidy.tiled.takes_allocate, fun _ => allocate_of_none,
    fun _ => htidy.tiled.takes_release, fun _ => release_of_none,
    fun _ _ => htidy.release_allocate⟩
  intro other hother hlive
  have hkept' := hother.kept hfits
  exact htidy.fst_allocate_eq hkept'.tidy (hkept'.zone_eq.trans hkept.zone_eq.symm) hlive

/-- Between 16 free bytes and the rest of the zone 8 bytes are in use.  A request that
needs 16 bytes fills the hole, one that needs 24 goes behind it, and one that needs more
than the rest is refused. -/
theorem firstFit_of_reached_between :
    ∃ l, Reached ⟨0x1000, 0x100⟩ l ∧ (l.heap.allocate 15).1 = some 0x1000 ∧
      (∃ e, l.heap.Room 16 e ∧ e.start = 0x1018) ∧
      (l.heap.allocate 16).2.release 0x1018 = l.heap ∧
      l.heap.allocate 0xe8 = (none, l.heap) ∧
      (l.heap.release 0x1010).Takes l.heap ⟨0x1010, 8⟩ ∧ l.heap.release 0x1000 = l.heap := by
  let l : Ledger := (((⟨fresh ⟨0x1000, 0x100⟩, ∅⟩ : Ledger).next (.allocate 10)).next
    (.allocate 7)).next (.release 0x1000)
  have hreached : Reached ⟨0x1000, 0x100⟩ l :=
    ⟨[.allocate 10, .allocate 7, .release 0x1000],
      .cons trivial (.cons trivial (.cons trivial (.nil _)))⟩
  have hfirst := firstFit_of_reached (by decide) hreached
  have hlive : l.heap.live = [⟨0x1010, 8⟩] := by decide
  have hbehind : (l.heap.allocate 16).1 = some 0x1018 := by decide
  obtain ⟨-, e, hroom, hstart, -⟩ := (hfirst.answer_iff 16 _).mp hbehind
  refine ⟨l, hreached, by decide, ⟨e, hroom, hstart⟩, hfirst.restored 16 _ hbehind,
    hfirst.refused 0xe8 (by decide), hfirst.takes_release ⟨0x1010, 8⟩ ?_,
    hfirst.ignored 0x1000 ?_⟩
  · rw [hlive]
    exact List.mem_cons_self
  · rw [hlive]
    decide

end Ledger

end Heap

end RegionGuard
