import RegionGuard.Proofs.Checker.InStep
import RegionGuard.Proofs.Heap.Exact
import RegionGuard.Proofs.Run

/-!
# The heap under any use

The allocator takes any calls in any order: sizes that do not fit, and addresses that it
has never handed out.  The heap alone does not know what was asked for, only the rounded
lengths, so a ledger keeps the requests that have been granted and not been taken back.

In every state that calls can lead to, the extents tile the usable places, the free ones
are the gaps that the live ones leave, each live one is as long as its request needs, and
no arithmetic has wrapped on the way.
-/

namespace RegionGuard

/-- The extents have no place in common. -/
def Extent.Disjoint (e other : Extent) : Prop :=
  ∀ place, ¬ (e.Covers place ∧ other.Covers place)

namespace Heap

/-- A call of the allocator. -/
inductive Call
  | allocate (size : UInt32)
  | release (addr : Addr)

/-- A heap with the requests that it has granted. -/
structure Ledger where
  /-- The heap. -/
  heap : Heap
  /-- Where each allocation starts that has not been taken back, with the size asked for. -/
  granted : Set Bounds

namespace Ledger

/-- The state after a call. -/
def next (l : Ledger) : Call → Ledger
  | .allocate size =>
    match l.heap.allocate size with
    | (some addr, heap) => ⟨heap, insert ⟨addr, size⟩ l.granted⟩
    | (none, heap) => ⟨heap, l.granted⟩
  | .release addr => ⟨l.heap.release addr, {b ∈ l.granted | b.start ≠ addr}⟩

/-- An allocator that takes any call. -/
def system : System Ledger Call where
  permits _ _ := True
  next := next

/-- Calls on a fresh heap over the zone can lead to this state. -/
def Reached (zone : Zone) (l : Ledger) : Prop :=
  ∃ calls, system.Run ⟨fresh zone, ∅⟩ calls l

/-- The heap over the zone is tidy, and its live extents are what the granted requests
need. -/
structure Kept (zone : Zone) (l : Ledger) : Prop where
  zone_eq : l.heap.zone = zone
  tidy : l.heap.Tidy
  exists_extent : ∀ b ∈ l.granted, ∃ e ∈ l.heap.live, e.Backs b
  exists_request : ∀ e ∈ l.heap.live, ∃ b ∈ l.granted, e.Backs b
  eq_of_start : ∀ a ∈ l.granted, ∀ b ∈ l.granted, a.start = b.start → a = b

/-- What holds in every state of the allocator. -/
structure LaidOut (zone : Zone) (l : Ledger) : Prop where
  /-- No two extents, free or live, have a place in common. -/
  disjoint : (l.heap.free ++ l.heap.live).Pairwise Extent.Disjoint
  /-- They cover the usable places of the zone and no other. -/
  tiles : ∀ place, (∃ e ∈ l.heap.free ++ l.heap.live, e.Covers place) ↔
    firstUsable zone ≤ place ∧ place < zone.stop
  /-- No extent is empty. -/
  length_pos : ∀ e ∈ l.heap.free ++ l.heap.live, 0 < e.length.toNat
  /-- Each starts at a multiple of the unit, and not at 0. -/
  start : ∀ e ∈ l.heap.free ++ l.heap.live, e.start ≠ 0 ∧ heapUnit ∣ e.start.toNat
  /-- A granted request has the extent that it needs, guard byte included and rounded up. -/
  extent_of_request : ∀ b ∈ l.granted, ∃! e, e ∈ l.heap.live ∧ e.Backs b
  /-- A live extent belongs to one granted request. -/
  request_of_extent : ∀ e ∈ l.heap.live, ∃! b, b ∈ l.granted ∧ e.Backs b
  /-- The free extents are the maximal runs of places that are not in use. -/
  mem_free_iff : ∀ e, e ∈ l.heap.free ↔ l.heap.Gap e
  /-- No two of them touch. -/
  spaced : l.heap.free.Spaced
  /-- The live extents determine the free ones, whatever has happened before. -/
  free_eq : ∀ other, Reached zone other → other.heap.live = l.heap.live →
    other.heap.free = l.heap.free
  /-- No sum and no difference wraps in the next call, whatever it is. -/
  exact : l.heap.Exact
  /-- Granted requests lie in the address space, the places behind them included. -/
  fits : ∀ b ∈ l.granted, b.Fits
  /-- No two of them have an address in common, these places included. -/
  apart : l.granted.Pairwise Bounds.Apart

variable {zone : Zone} {l : Ledger}

theorem kept_fresh (hfits : zone.stop ≤ addressCount) : Kept zone ⟨fresh zone, ∅⟩ where
  zone_eq := rfl
  tidy := tidy_fresh hfits
  exists_extent b hb := absurd hb (Set.notMem_empty b)
  exists_request _ he := absurd he List.not_mem_nil
  eq_of_start b hb := absurd hb (Set.notMem_empty b)

/-- A request that is granted at the start of a free extent is the only one there. -/
theorem Kept.carve (h : Kept zone l) {size needed : UInt32} {found : Extent}
    (hneeded : needed? size = some needed) (hfound : found ∈ l.heap.free)
    (htidy : (l.heap.carve needed found).Tidy) :
    Kept zone ⟨l.heap.carve needed found, insert ⟨found.start, size⟩ l.granted⟩ := by
  have hlive := h.tidy.tiled.mem_live_carve needed hfound
  have hbacks : Extent.Backs ⟨found.start, needed⟩ ⟨found.start, size⟩ :=
    ⟨rfl, toNat_needed hneeded⟩
  have hnew : ∀ b ∈ l.granted, b.start ≠ found.start := by
    intro b hb hstart
    obtain ⟨e, he, hold⟩ := h.exists_extent b hb
    exact h.tidy.tiled.start_ne_of_free hfound e he (hold.start_eq.trans hstart)
  refine ⟨h.zone_eq, htidy, ?_, ?_, ?_⟩
  · intro b hb
    rcases hb with rfl | hb
    · exact ⟨_, (hlive _).mpr (.inl rfl), hbacks⟩
    · obtain ⟨e, he, hold⟩ := h.exists_extent b hb
      exact ⟨e, (hlive e).mpr (.inr he), hold⟩
  · intro e he
    rcases (hlive e).mp he with rfl | he
    · exact ⟨_, .inl rfl, hbacks⟩
    · obtain ⟨b, hb, hold⟩ := h.exists_request e he
      exact ⟨b, .inr hb, hold⟩
  · intro a ha b hb hstart
    rcases ha with rfl | ha <;> rcases hb with rfl | hb
    · rfl
    · exact absurd hstart.symm (hnew b hb)
    · exact absurd hstart (hnew a ha)
    · exact h.eq_of_start a ha b hb hstart

/-- A request that is granted gets an extent of its own; otherwise nothing changes. -/
theorem Kept.allocate (h : Kept zone l) (size : UInt32) : Kept zone (l.next (.allocate size)) := by
  have htidy := h.tidy.allocate size
  unfold next
  rcases l.heap.allocate_cases size with hnone | ⟨needed, found, hneeded, hfound, -, hsome⟩
  · simp only [hnone]
    exact h
  · rw [hsome] at htidy
    simp only [hsome]
    exact h.carve hneeded hfound htidy

/-- Extent and request are taken back together, as they start at the same address. -/
theorem Kept.release (h : Kept zone l) (addr : Addr) : Kept zone (l.next (.release addr)) where
  zone_eq := (zone_release l.heap addr).trans h.zone_eq
  tidy := h.tidy.release addr
  exists_extent b hb := by
    obtain ⟨e, he, hbacks⟩ := h.exists_extent b hb.1
    have hkept : e ∈ l.heap.live.erase addr := by
      refine Extents.mem_erase_iff.mpr ⟨he, ?_⟩
      rw [hbacks.start_eq]
      exact hb.2
    rw [← live_release] at hkept
    exact ⟨e, hkept, hbacks⟩
  exists_request e he := by
    have he' : e ∈ (l.heap.release addr).live := he
    rw [live_release] at he'
    obtain ⟨hlive, hne⟩ := Extents.mem_erase_iff.mp he'
    obtain ⟨b, hb, hbacks⟩ := h.exists_request e hlive
    rw [hbacks.start_eq] at hne
    exact ⟨b, ⟨hb, hne⟩, hbacks⟩
  eq_of_start a ha b hb := h.eq_of_start a ha.1 b hb.1

/-- Every call keeps requests and extents in agreement, whatever address is released. -/
theorem Kept.next (h : Kept zone l) (call : Call) : Kept zone (l.next call) := by
  cases call with
  | allocate size => exact h.allocate size
  | release addr => exact h.release addr

/-- Requests and extents agree in every state of the allocator. -/
theorem Reached.kept (hfits : zone.stop ≤ addressCount) (h : Reached zone l) : Kept zone l := by
  obtain ⟨calls, hrun⟩ := h
  exact hrun.invariant (Kept zone) (fun _ call _ hkept => hkept.next call) (kept_fresh hfits)

/-! ## What is kept -/

/-- Extents are disjoint if no place is covered twice. -/
theorem disjoint_of_cover {extents : Extents} (hsorted : extents.Sorted)
    (honce : ∀ place, extents.cover place ≤ 1) : extents.Pairwise Extent.Disjoint := by
  refine List.Pairwise.imp_of_mem ?_ hsorted
  intro x y hx hy hlt place ⟨hxplace, hyplace⟩
  rw [hsorted.eq_of_covers (honce place) hx hy hxplace hyplace] at hlt
  exact UInt32.lt_irrefl _ hlt

/-- Free and live extents together are disjoint. -/
theorem Kept.disjoint (h : Kept zone l) :
    (l.heap.free ++ l.heap.live).Pairwise Extent.Disjoint := by
  have htiled := h.tidy.tiled
  have hcover := htiled.cover_le
  refine List.pairwise_append.mpr ⟨?_, ?_, ?_⟩
  · refine disjoint_of_cover htiled.free_sorted fun place => ?_
    exact Nat.le_trans (Nat.le_add_right _ _) (hcover place)
  · refine disjoint_of_cover htiled.live_sorted fun place => ?_
    exact Nat.le_trans (Nat.le_add_left _ _) (hcover place)
  · intro x hx y hy place ⟨hxplace, hyplace⟩
    exact htiled.not_free_and_live hx hy hxplace hyplace

/-- Free and live extents leave no usable place out and cover no other one. -/
theorem Kept.tiles (h : Kept zone l) (place : Nat) :
    (∃ e ∈ l.heap.free ++ l.heap.live, e.Covers place) ↔
      firstUsable zone ≤ place ∧ place < zone.stop := by
  have htiled := h.tidy.tiled
  rw [← h.zone_eq]
  constructor
  · intro ⟨e, he, hplace⟩
    rcases List.mem_append.mp he with hfree | hlive
    · exact htiled.free_usable hfree hplace
    · exact htiled.live_usable hlive hplace
  · intro husable
    by_cases hlive : ∃ e ∈ l.heap.live, e.Covers place
    · obtain ⟨e, he, hplace⟩ := hlive
      exact ⟨e, List.mem_append_right _ he, hplace⟩
    · push Not at hlive
      obtain ⟨e, he, hplace⟩ := htiled.vacant_iff.mp ⟨husable, hlive⟩
      exact ⟨e, List.mem_append_left _ he, hplace⟩

theorem Kept.length_pos (h : Kept zone l) {e : Extent} (he : e ∈ l.heap.free ++ l.heap.live) :
    0 < e.length.toNat := by
  rcases List.mem_append.mp he with hfree | hlive
  · exact h.tidy.tiled.free_pos e hfree
  · exact h.tidy.tiled.live_pos e hlive

/-- Each extent starts at a multiple of the unit other than 0. -/
theorem Kept.start (h : Kept zone l) {e : Extent} (he : e ∈ l.heap.free ++ l.heap.live) :
    e.start ≠ 0 ∧ heapUnit ∣ e.start.toNat := by
  have hfirst := firstUsable_pos zone
  obtain ⟨hfrom, -⟩ := (h.tiles _).mp ⟨e, he, Extent.covers_start (h.length_pos he)⟩
  refine ⟨?_, ?_⟩
  · intro hzero
    rw [hzero] at hfrom
    exact absurd (Nat.lt_of_lt_of_le hfirst hfrom) (Nat.lt_irrefl 0)
  · rcases List.mem_append.mp he with hfree | hlive
    · exact h.tidy.free_aligned e hfree
    · exact h.tidy.live_aligned e hlive

theorem Kept.fits (h : Kept zone l) {b : Bounds} (hb : b ∈ l.granted) : b.Fits := by
  obtain ⟨e, he, hbacks⟩ := h.exists_extent b hb
  have hzone : l.heap.zone.stop ≤ 4294967296 := h.tidy.tiled.zone_fits
  have hround := le_roundUp (b.size.toNat + 1)
  have hstop := (h.tidy.tiled.live_bounds he).2
  have hestop : e.stop = b.start.toNat + roundUp (b.size.toNat + 1) :=
    congrArg₂ Nat.add (congrArg UInt32.toNat hbacks.start_eq) hbacks.length_eq
  show b.start.toNat + b.size.toNat < 4294967296
  omega

/-- The guard byte of each allocation keeps its end apart from the next one. -/
theorem Kept.apart (h : Kept zone l) : l.granted.Pairwise Bounds.Apart := by
  intro a ha b hb hne addr ⟨haspans, hbspans⟩
  obtain ⟨x, hx, hxbacks⟩ := h.exists_extent a ha
  obtain ⟨y, hy, hybacks⟩ := h.exists_extent b hb
  have hsame := h.tidy.tiled.live_eq_of_covers hx hy (hxbacks.covers haspans)
    (hybacks.covers hbspans)
  have hstart : a.start = b.start := by rw [← hxbacks.start_eq, hsame, hybacks.start_eq]
  exact hne (h.eq_of_start a ha b hb hstart)

/-- Each granted request is backed by one live extent. -/
theorem Kept.extent_of_request (h : Kept zone l) {b : Bounds} (hb : b ∈ l.granted) :
    ∃! e, e ∈ l.heap.live ∧ e.Backs b := by
  obtain ⟨e, he, hbacks⟩ := h.exists_extent b hb
  refine ⟨e, ⟨he, hbacks⟩, ?_⟩
  intro other ⟨hother, hbacks'⟩
  exact h.tidy.tiled.live_sorted.eq_of_start hother he
    (hbacks'.start_eq.trans hbacks.start_eq.symm)

/-- Each live extent backs one granted request. -/
theorem Kept.request_of_extent (h : Kept zone l) {e : Extent} (he : e ∈ l.heap.live) :
    ∃! b, b ∈ l.granted ∧ e.Backs b := by
  obtain ⟨b, hb, hbacks⟩ := h.exists_request e he
  refine ⟨b, ⟨hb, hbacks⟩, ?_⟩
  intro other ⟨hother, hbacks'⟩
  exact h.eq_of_start other hother b hb (hbacks'.start_eq.symm.trans hbacks.start_eq)

/-- Whatever is called, over any zone in the address space. -/
theorem laidOut_of_reached (hfits : zone.stop ≤ addressCount) (h : Reached zone l) :
    LaidOut zone l := by
  have hkept := h.kept hfits
  refine ⟨hkept.disjoint, hkept.tiles, fun _ => hkept.length_pos, fun _ => hkept.start,
    fun _ => hkept.extent_of_request, fun _ => hkept.request_of_extent,
    fun _ => hkept.tidy.mem_free_iff, hkept.tidy.spaced, ?_, hkept.tidy.tiled.exact,
    fun _ => hkept.fits, hkept.apart⟩
  intro other hother hlive
  have hkept' := hother.kept hfits
  exact hkept.tidy.free_eq hkept'.tidy (hkept'.zone_eq.trans hkept.zone_eq.symm) hlive

/-- Two allocations of 10 and 7 bytes, the first of which is taken back: what is free lies
on both sides of the other one. -/
theorem laidOut_of_reached_hole :
    ∃ l, Reached ⟨0x1000, 0x100⟩ l ∧ l.heap.Gap ⟨0x1000, 16⟩ ∧ l.heap.Gap ⟨0x1018, 0xe8⟩ ∧
      ⟨0x1010, 7⟩ ∈ l.granted := by
  let l : Ledger := (((⟨fresh ⟨0x1000, 0x100⟩, ∅⟩ : Ledger).next (.allocate 10)).next
    (.allocate 7)).next (.release 0x1000)
  have hreached : Reached ⟨0x1000, 0x100⟩ l :=
    ⟨[.allocate 10, .allocate 7, .release 0x1000],
      .cons trivial (.cons trivial (.cons trivial (.nil _)))⟩
  have hlaid := laidOut_of_reached (by decide) hreached
  have hfree : l.heap.free = [⟨0x1000, 16⟩, ⟨0x1018, 0xe8⟩] := by decide
  have hgranted : l.granted = {b ∈ (insert ⟨0x1010, 7⟩ (insert ⟨0x1000, 10⟩ ∅) : Set Bounds) |
    b.start ≠ 0x1000} := rfl
  refine ⟨l, hreached, (hlaid.mem_free_iff _).mp ?_, (hlaid.mem_free_iff _).mp ?_, ?_⟩
  · rw [hfree]
    exact List.mem_cons_self
  · rw [hfree]
    exact List.mem_cons_of_mem _ List.mem_cons_self
  · rw [hgranted]
    exact ⟨.inl rfl, by decide⟩

end Ledger

end Heap

end RegionGuard
