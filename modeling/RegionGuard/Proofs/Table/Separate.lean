import RegionGuard.Proofs.Table.Registration
import Mathlib.Data.Finset.Card
import Mathlib.Data.Finset.Range
import Mathlib.Data.Set.Pairwise.Basic

/-!
# Regions as ranges of addresses

Here a region is the range `[start, start + size]` of unbounded numbers, its end
included.  The table compares wrapping distances instead, and it knows a region
by the blocks from the first to the last one; for a region within the address
space both come to the same.

Live regions are `Separate`: each can be registered, and no address lies in two of
them.  Only so many of them can touch one block, as each takes one of its addresses.
-/

namespace RegionGuard

/-- No address is beyond the last block, so numbers of blocks do not start again. -/
theorem Slot.number_ofAddr (addr : Addr) : (Slot.ofAddr addr).number = addr.toNat / blockSize := by
  have hlt : addr.toNat < 4294967296 := addr.toNat_lt
  have hblock : addr.toNat / 256 < 16777216 := by omega
  exact Slot.number_ofBlock hblock

/-- An address lies in a block if the division by the size of blocks gives its number. -/
theorem Slot.ofAddr_eq_iff {addr : Addr} {s : Slot} :
    Slot.ofAddr addr = s ↔ addr.toNat / blockSize = s.number := by
  constructor
  · rintro rfl
    exact (Slot.number_ofAddr addr).symm
  · intro h
    rw [Slot.ofAddr, h, Slot.ofBlock_number]

namespace Bounds

/-- The address lies in the region, its end included. -/
def Spans (b : Bounds) (addr : Addr) : Prop :=
  b.start.toNat ≤ addr.toNat ∧ addr.toNat ≤ b.start.toNat + b.size.toNat

instance (b : Bounds) (addr : Addr) : Decidable (b.Spans addr) :=
  inferInstanceAs (Decidable (_ ∧ _))

/-- No address lies in both regions. -/
def Apart (a b : Bounds) : Prop :=
  ∀ addr, ¬ (a.Spans addr ∧ b.Spans addr)

/-- The region has an address in the block. -/
def Meets (b : Bounds) (s : Slot) : Prop :=
  ∃ addr, b.Spans addr ∧ Slot.ofAddr addr = s

/-- The region ends within the address space. -/
def Fits (b : Bounds) : Prop :=
  b.start.toNat + b.size.toNat < addressCount

instance (b : Bounds) : Decidable b.Fits :=
  inferInstanceAs (Decidable (_ < _))

variable {a b : Bounds} {addr : Addr} {s : Slot}

theorem Apart.symm (h : a.Apart b) : b.Apart a :=
  fun addr hboth => h addr hboth.symm

/-- A region that stops before the other one starts is apart from it. -/
theorem apart_of_lt (h : a.start.toNat + a.size.toNat < b.start.toNat) : a.Apart b := by
  intro addr hboth
  obtain ⟨⟨-, hto⟩, hfrom, -⟩ := hboth
  omega

theorem spans_start (b : Bounds) : b.Spans b.start :=
  ⟨Nat.le_refl _, Nat.le_add_right _ _⟩

/-- One comparison of wrapping numbers tests both ends of the range. -/
theorem Fits.contains_iff (h : b.Fits) : b.contains addr = true ↔ b.Spans addr := by
  have hfits : b.start.toNat + b.size.toNat < 4294967296 := h
  have haddr : addr.toNat < 4294967296 := addr.toNat_lt
  have hstart : b.start.toNat < 4294967296 := b.start.toNat_lt
  have hdistance : (b.distance addr).toNat =
      (4294967296 - b.start.toNat + addr.toNat) % 4294967296 := UInt32.toNat_sub addr b.start
  rw [contains, decide_eq_true_iff, UInt32.le_iff_toNat_le, hdistance, Spans]
  omega

/-- The end of a region that fits does not wrap. -/
theorem Fits.toNat_stop (h : b.Fits) : b.stop.toNat = b.start.toNat + b.size.toNat := by
  have hfits : b.start.toNat + b.size.toNat < 4294967296 := h
  rw [stop, UInt32.toNat_add]
  exact Nat.mod_eq_of_lt hfits

/-- A region has its end address, too, as the bounds are inclusive. -/
theorem Fits.spans_stop (h : b.Fits) : b.Spans b.stop := by
  rw [Spans, h.toNat_stop]
  exact ⟨Nat.le_add_right _ _, Nat.le_refl _⟩

/-- The blocks that a region touches are those from its first to its last one. -/
theorem Fits.meets_iff (h : b.Fits) :
    b.Meets s ↔ (Slot.ofAddr b.start).number ≤ s.number ∧ s.number ≤ (Slot.ofAddr b.stop).number := by
  have hfits : b.start.toNat + b.size.toNat < 4294967296 := h
  rw [Slot.number_ofAddr, Slot.number_ofAddr, h.toNat_stop]
  constructor
  · intro ⟨addr, ⟨hfrom, hto⟩, hblock⟩
    have hnumber : addr.toNat / 256 = s.number := Slot.ofAddr_eq_iff.mp hblock
    show b.start.toNat / 256 ≤ _ ∧ _ ≤ (b.start.toNat + b.size.toNat) / 256
    omega
  · intro ⟨hfirst, hlast⟩
    have hfirst' : b.start.toNat / 256 ≤ s.number := hfirst
    have hlast' : s.number ≤ (b.start.toNat + b.size.toNat) / 256 := hlast
    -- the first address that the region and the block have in common
    let place := max b.start.toNat (s.number * 256)
    have hplace : place < 4294967296 := by omega
    refine ⟨UInt32.ofNat place, ?_, ?_⟩
    · rw [Spans, UInt32.toNat_ofNat_of_lt' hplace]
      omega
    · rw [Slot.ofAddr_eq_iff, UInt32.toNat_ofNat_of_lt' hplace]
      show place / 256 = s.number
      omega

/-- A region meets the blocks of its two ends and those between, and no others. -/
theorem Fits.meets_iff_endsIn_or_encloses (h : b.Fits) :
    b.Meets s ↔ b.EndsIn s ∨ b.Encloses s := by
  have hnumber : ∀ s', s = s' ↔ s.number = s'.number := fun s' => by
    constructor
    · rintro rfl
      rfl
    · intro heq
      rw [← Slot.ofBlock_number s, heq, Slot.ofBlock_number]
  have horder : (Slot.ofAddr b.start).number ≤ (Slot.ofAddr b.stop).number := by
    rw [Slot.number_ofAddr, Slot.number_ofAddr, h.toNat_stop]
    exact Nat.div_le_div_right (Nat.le_add_right _ _)
  rw [h.meets_iff, EndsIn, Encloses, hnumber, hnumber]
  omega

/-- Every address of a block strictly inside a region lies in the region. -/
theorem Fits.spans_of_encloses (h : b.Fits) (hs : b.Encloses s) (haddr : Slot.ofAddr addr = s) :
    b.Spans addr := by
  obtain ⟨hfirst, hlast⟩ := hs
  have hfits : b.start.toNat + b.size.toNat < 4294967296 := h
  have hnumber : addr.toNat / 256 = s.number := Slot.ofAddr_eq_iff.mp haddr
  rw [Slot.number_ofAddr] at hfirst hlast
  rw [h.toNat_stop] at hlast
  have hfirst' : b.start.toNat / 256 < s.number := hfirst
  have hlast' : s.number < (b.start.toNat + b.size.toNat) / 256 := hlast
  rw [Spans]
  omega

/-- Regions apart from each other have different starts. -/
theorem Apart.start_ne (h : a.Apart b) : a.start ≠ b.start := by
  intro heq
  refine h a.start ⟨spans_start a, ?_⟩
  rw [heq]
  exact spans_start b

end Bounds

/-- Regions that can be live together. -/
structure Separate (live : Set Bounds) : Prop where
  start_ne : ∀ b ∈ live, b.start ≠ 0
  fits : ∀ b ∈ live, b.Fits
  apart : live.Pairwise Bounds.Apart

namespace Separate

variable {live : Set Bounds}

theorem empty : Separate ∅ where
  start_ne b hb := absurd hb (Set.notMem_empty b)
  fits b hb := absurd hb (Set.notMem_empty b)
  apart := Set.pairwise_empty _

/-- A region that fits, does not start at 0 and is apart from the others can join them. -/
theorem insert (h : Separate live) {b : Bounds} (hstart : b.start ≠ 0) (hfits : b.Fits)
    (hapart : ∀ r ∈ live, r.Apart b) : Separate (Insert.insert b live) where
  start_ne := by
    rintro r (rfl | hr)
    · exact hstart
    · exact h.start_ne r hr
  fits := by
    rintro r (rfl | hr)
    · exact hfits
    · exact h.fits r hr
  apart := by
    refine h.apart.insert fun r hr _ => ?_
    exact ⟨(hapart r hr).symm, hapart r hr⟩

theorem mono (h : Separate live) {fewer : Set Bounds} (hfewer : fewer ⊆ live) :
    Separate fewer where
  start_ne b hb := h.start_ne b (hfewer hb)
  fits b hb := h.fits b (hfewer hb)
  apart := h.apart.mono hfewer

/-- An address lies in at most one live region. -/
theorem eq_of_spans (h : Separate live) {a b : Bounds} (ha : a ∈ live) (hb : b ∈ live)
    {addr : Addr} (haddr : a.Spans addr) (hbddr : b.Spans addr) : a = b := by
  by_contra hne
  exact h.apart ha hb hne addr ⟨haddr, hbddr⟩

/-- Live regions are told apart by their starts. -/
theorem eq_of_start (h : Separate live) {a b : Bounds} (ha : a ∈ live) (hb : b ∈ live)
    (hstart : a.start = b.start) : a = b := by
  by_contra hne
  exact (h.apart ha hb hne).start_ne hstart

/-- No more regions touch a block than it has addresses. -/
theorem length_le (h : Separate live) {s : Slot} {regions : List Bounds} (hnodup : regions.Nodup)
    (hmeets : ∀ b ∈ regions, b ∈ live ∧ b.Meets s) : regions.length ≤ blockSize := by
  classical
  have haddr : ∀ b, ∃ addr, b ∈ regions → b.Spans addr ∧ Slot.ofAddr addr = s := fun b => by
    by_cases hb : b ∈ regions
    · obtain ⟨addr, hspans⟩ := (hmeets b hb).2
      exact ⟨addr, fun _ => hspans⟩
    · exact ⟨0, fun hb' => absurd hb' hb⟩
  choose place hplace using haddr
  rw [← List.toFinset_card_of_nodup hnodup, ← Finset.card_range blockSize]
  refine Finset.card_le_card_of_injOn (fun b => (place b).toNat % blockSize) ?_ ?_
  · intro b _
    simpa using Nat.mod_lt _ (by decide)
  · intro a ha b hb heq
    have ha' := List.mem_toFinset.mp ha
    have hb' := List.mem_toFinset.mp hb
    obtain ⟨haspans, hablock⟩ := hplace a ha'
    obtain ⟨hbspans, hbblock⟩ := hplace b hb'
    have hamod := Slot.ofAddr_eq_iff.mp hablock
    have hbmod := Slot.ofAddr_eq_iff.mp hbblock
    -- same block and same offset in it: the same address
    have hsame : place a = place b := by
      apply UInt32.toNat_inj.mp
      have heq' : (place a).toNat % blockSize = (place b).toNat % blockSize := heq
      rw [← Nat.div_add_mod (place a).toNat blockSize, ← Nat.div_add_mod (place b).toNat blockSize,
        hamod, hbmod, heq']
    rw [hsame] at haspans
    exact h.eq_of_spans (hmeets a ha').1 (hmeets b hb').1 haspans hbspans

end Separate

end RegionGuard
