import RegionGuard.Checker.Basic
import RegionGuard.Proofs.Heap.Memory
import RegionGuard.Proofs.Table.Access

/-!
# Heap and table in step

The table knows an allocation as a region of the size asked for, the allocator as
an extent with a guard byte, rounded up.  A checker is `InStep` if the two lists
agree: every live region in the heap's zone is backed by a live extent and every
live extent backs one, strays apart.  As extents do not overlap, a piece that the allocator
hands out is apart from all live regions, so its registration cannot fail.
-/

namespace RegionGuard

/-- The byte at a place belongs to the region; the end of the region does not. -/
def Bounds.Holds (b : Bounds) (place : Nat) : Prop :=
  b.start.toNat ≤ place ∧ place < b.start.toNat + b.size.toNat

instance (b : Bounds) (place : Nat) : Decidable (b.Holds place) :=
  inferInstanceAs (Decidable (_ ∧ _))

/-- Regions apart from each other have no byte in common. -/
theorem Bounds.Apart.not_holds {a b : Bounds} (h : a.Apart b) (hfits : a.Fits) {place : Nat}
    (ha : a.Holds place) (hb : b.Holds place) : False := by
  obtain ⟨hafrom, hato⟩ := ha
  obtain ⟨hbfrom, hbto⟩ := hb
  have hfits' : a.start.toNat + a.size.toNat < 4294967296 := hfits
  have hplace : (UInt32.ofNat place).toNat = place :=
    UInt32.toNat_ofNat_of_lt' (show _ < 4294967296 by omega)
  refine h (UInt32.ofNat place) ⟨?_, ?_⟩
  · unfold Bounds.Spans
    omega
  · unfold Bounds.Spans
    omega

/-- The extent is what an allocation of the region's size takes up. -/
structure Extent.Backs (e : Extent) (b : Bounds) : Prop where
  start_eq : e.start = b.start
  length_eq : e.length.toNat = roundUp (b.size.toNat + 1)

/-- The guard byte is part of the extent, so the end of the region is, too. -/
theorem Extent.Backs.covers {e : Extent} {b : Bounds} (h : e.Backs b) {addr : Addr}
    (hspans : b.Spans addr) : e.Covers addr.toNat := by
  obtain ⟨hfrom, hto⟩ := hspans
  have hround := le_roundUp (b.size.toNat + 1)
  have hstart : e.start.toNat = b.start.toNat := by rw [h.start_eq]
  have hlength := h.length_eq
  unfold Extent.Covers Extent.stop
  omega

namespace Config

/-- The heap starts at a block and lies below the zone of the invalid pointer. -/
structure Placed (config : Config) : Prop where
  aligned : config.heap.start.toNat % blockSize = 0
  below : config.heap.stop ≤ guardZone.start.toNat

/-- The zones that are forbidden from the start. -/
abbrev zones (config : Config) : List Zone :=
  config.heap.widened blockSize :: config.reserved

/-- What the check of a configuration says in terms of addresses. -/
theorem placed_of_checkPlacement {config : Config} (h : config.checkPlacement = .ok ()) :
    config.Placed := by
  unfold checkPlacement at h
  dsimp only at h
  split at h
  · cases h
  · split at h
    · cases h
    · rename_i haligned
      split at h
      · cases h
      · split at h
        · cases h
        · rename_i hguard
          refine ⟨not_not.mp haligned, ?_⟩
          have hstart : config.heap.start.toNat < 4294967296 := config.heap.start.toNat_lt
          have hguardstop : guardZone.stop = 4294967296 := rfl
          have hmeets : ¬ (config.heap.start.toNat < guardZone.stop ∧
              guardZone.start.toNat < config.heap.stop) := by
            simpa [Zone.meets] using hguard
          omega

variable {config : Config}

theorem Placed.stop_lt (h : config.Placed) : config.heap.stop < addressCount :=
  Nat.lt_of_le_of_lt h.below (by decide)

/-- The blocks of the heap's zone are forbidden, its last one too if the zone
covers it only in part. -/
theorem Placed.reserved (h : config.Placed) {addr : Addr} (hhas : config.heap.Has addr) :
    Reserved config.zones (Slot.ofAddr addr) := by
  refine ⟨config.heap.widened blockSize, by simp, ?_⟩
  obtain ⟨hfrom, hto⟩ := hhas
  have haligned : config.heap.start.toNat % 256 = 0 := h.aligned
  have hbelow : config.heap.stop ≤ 4294443008 := h.below
  have hstart : (config.heap.widened blockSize).start.toNat = config.heap.start.toNat := by
    have hlt : config.heap.start.toNat / 256 * 256 < 4294967296 := by
      have := config.heap.start.toNat_lt
      omega
    refine (UInt32.toNat_ofNat_of_lt' hlt).trans ?_
    omega
  have hsize : (config.heap.widened blockSize).size.toNat =
      min (min ((config.heap.stop + 256 - 1) / 256 * 256) 4294967296 -
        config.heap.start.toNat / 256 * 256) (4294967296 - 1) :=
    UInt32.toNat_ofNat_of_lt' (show min _ (4294967296 - 1) < 4294967296 by omega)
  rw [Zone.Fills, Zone.stop, hstart, hsize, Slot.number_ofAddr]
  show _ ≤ addr.toNat / 256 * 256 ∧ (addr.toNat / 256 + 1) * 256 ≤ _
  omega

end Config

namespace Checker

/-- The regions of the table in the heap's zone are the allocations of the heap,
and the other regions are outside the zone.  Only extents in `strays` may have lost
their region: those of allocations that were removed by hand. -/
structure InStep (config : Config) (strays : Set Extent) (c : Checker Heap)
    (live : Set Bounds) : Prop where
  config_eq : c.config = config
  zone_eq : c.heap.zone = config.heap
  tracks : c.table.Tracks config.zones live
  tiled : c.heap.Tiled
  exists_extent : ∀ b ∈ live, config.heap.Has b.start → ∃ e ∈ c.heap.live, e.Backs b
  exists_region : ∀ e ∈ c.heap.live, e ∉ strays → ∃ b ∈ live, e.Backs b
  outside : ∀ b ∈ live, ¬ config.heap.Has b.start → ∀ addr, b.Spans addr → ¬ config.heap.Has addr

/-- The bytes of the given regions have stayed the same. -/
def Spares (c after : Checker Heap) (live : Set Bounds) : Prop :=
  ∀ b ∈ live, ∀ place, b.Holds place → after.heap.bytes.get place = c.heap.bytes.get place

variable {config : Config} {strays : Set Extent} {c after : Checker Heap} {live : Set Bounds}

theorem Spares.of_eq (h : after.heap.bytes = c.heap.bytes) (live : Set Bounds) :
    c.Spares after live :=
  fun b _ place _ => by rw [h]

/-- Regions apart from the one whose bytes have been changed are spared. -/
theorem Spares.of_apart {changed : Bounds} (hfits : ∀ b ∈ live, b.Fits)
    (hapart : ∀ b ∈ live, b.Apart changed)
    (hkept : ∀ place, ¬ changed.Holds place →
      after.heap.bytes.get place = c.heap.bytes.get place) : c.Spares after live :=
  fun b hb place hplace =>
    hkept place fun hchanged => (hapart b hb).not_holds (hfits b hb) hplace hchanged

namespace InStep

/-- What the heap can hand out lies in the heap zone of the configuration. -/
theorem usable_has (h : InStep config strays c live) {place : Nat}
    (husable : Heap.Usable c.heap.zone place)
    {addr : Addr} (haddr : addr.toNat = place) : config.heap.Has addr := by
  obtain ⟨hfrom, hto⟩ := husable
  have hfirst := Heap.le_firstUsable c.heap.zone
  rw [h.zone_eq] at hfrom hto hfirst
  unfold Zone.Has
  omega

/-- The extent behind a live region in the zone covers all of it. -/
theorem exists_covers (h : InStep config strays c live) {b : Bounds} (hb : b ∈ live)
    (hhas : config.heap.Has b.start) :
    ∃ e ∈ c.heap.live, ∀ addr, b.Spans addr → e.Covers addr.toNat := by
  obtain ⟨e, he, hbacks⟩ := h.exists_extent b hb hhas
  exact ⟨e, he, fun _ hspans => hbacks.covers hspans⟩

/-- A live region either lies in the zone or outside it. -/
theorem has_of_spans (h : InStep config strays c live) {b : Bounds} (hb : b ∈ live) {addr : Addr}
    (hspans : b.Spans addr) : config.heap.Has addr ↔ config.heap.Has b.start := by
  constructor
  · intro hhas
    by_contra hout
    exact h.outside b hb hout addr hspans hhas
  · intro hhas
    obtain ⟨e, he, hcovers⟩ := h.exists_covers hb hhas
    exact h.usable_has (h.tiled.live_usable he (hcovers addr hspans)) rfl

/-- A region in the zone ends in it. -/
theorem stop_lt (h : InStep config strays c live) {b : Bounds} (hb : b ∈ live)
    (hhas : config.heap.Has b.start) : b.start.toNat + b.size.toNat < config.heap.stop := by
  have hfits := h.tracks.separate.fits b hb
  have hlast := ((h.has_of_spans hb hfits.spans_stop).mpr hhas).2
  rw [hfits.toNat_stop] at hlast
  exact hlast

/-- What the allocator could hand out is apart from every live region. -/
theorem apart_of_free (h : InStep config strays c live) {found : Extent}
    (hfound : found ∈ c.heap.free)
    {r : Bounds} (hcovers : ∀ addr, r.Spans addr → found.Covers addr.toNat) :
    ∀ b ∈ live, b.Apart r := by
  intro b hb addr ⟨hbspans, hrspans⟩
  have hfree := hcovers addr hrspans
  have hhas : config.heap.Has addr := h.usable_has (h.tiled.free_usable hfound hfree) rfl
  obtain ⟨e, he, hlive⟩ := h.exists_covers hb ((h.has_of_spans hb hbspans).mp hhas)
  exact h.tiled.not_free_and_live hfound he hfree (hlive addr hbspans)

/-- Only the table has changed, and it tracks the same regions. -/
theorem of_table (h : InStep config strays c live) {table : Table}
    (htracks : table.Tracks config.zones live) :
    InStep config strays ⟨table, c.heap, c.config⟩ live :=
  ⟨h.config_eq, h.zone_eq, htracks, h.tiled, h.exists_extent, h.exists_region, h.outside⟩

/-- Only bytes of the heap have changed. -/
theorem of_refills (h : InStep config strays c live) {heap : Heap} {place count : Nat}
    (hrefills : c.heap.Refills heap place count) :
    InStep config strays ⟨c.table, heap, c.config⟩ live where
  config_eq := h.config_eq
  zone_eq := hrefills.zone_eq.trans h.zone_eq
  tracks := h.tracks
  tiled := hrefills.tiled h.tiled
  exists_extent b hb hhas := by
    show ∃ e ∈ heap.live, e.Backs b
    rw [hrefills.live_eq]
    exact h.exists_extent b hb hhas
  exists_region e he := by
    have he' : e ∈ heap.live := he
    rw [hrefills.live_eq] at he'
    exact h.exists_region e he'
  outside := h.outside

end InStep

end Checker

end RegionGuard
