import RegionGuard.Proofs.Checker.Failing
import RegionGuard.Proofs.Checker.Upkeep

/-!
# Allocating zeros

Zeros are an allocation whose bytes are cleared afterwards, so two things could go wrong
behind the allocator's answer: the registration and the clearing.  Neither can.  What the
allocator hands out is apart from all live regions, and a region that has just been
registered in the heap's zone is backed by memory to its last byte.  So the request is
answered, with no address exactly if the product is too large or no gap has room for it.
-/

namespace RegionGuard

namespace Heap

variable {heap : Heap} {addr : Addr} {size : UInt32}

/-- An extent is never as long as the address space, so the gaps alone decide. -/
theorem lacks_iff (heap : Heap) (size : UInt32) :
    heap.Lacks size ↔ ∀ e, heap.Gap e → e.length.toNat < roundUp (size.toNat + 1) := by
  constructor
  · rintro (hlong | hshort) e hgap
    · exact Nat.lt_of_lt_of_le e.length.toNat_lt hlong
    · exact hshort e hgap
  · exact .inr

theorem clear_of_mapped (hmapped : heap.mapped addr size = .ok ()) :
    heap.clear addr size =
      (.ok (), { heap with bytes := heap.bytes.clear addr.toNat size.toNat }) := by
  unfold clear
  rw [hmapped]

end Heap

namespace Checker

/-- The checker has one more region at the address, filled with zeros. -/
structure Zeroes (c after : Checker Heap) (addr : Addr) (size : UInt32) : Prop where
  /-- The region is live, and the others are as before. -/
  liveRegions_eq : after.table.liveRegions = insert ⟨addr, size⟩ c.table.liveRegions
  /-- It was not live before. -/
  not_live : ⟨addr, size⟩ ∉ c.table.liveRegions
  /-- It has no address in common with a live region, the places behind them included. -/
  apart : ∀ b ∈ c.table.liveRegions, b.Apart ⟨addr, size⟩
  /-- The address is the allocator's answer. -/
  allocated : (c.heap.allocate size).1 = some addr
  /-- Zone and extents are those that the allocation leaves. -/
  heap_eq : after.heap = { (c.heap.allocate size).2 with bytes := after.heap.bytes }
  /-- Its bytes are zero, whatever has been stored there. -/
  get_zero : ∀ place, addr.toNat ≤ place → place < addr.toNat + size.toNat →
    after.heap.bytes.get place = 0
  /-- No other byte has changed. -/
  get_eq : ∀ place, place < addr.toNat ∨ addr.toNat + size.toNat ≤ place →
    after.heap.bytes.get place = c.heap.bytes.get place

/-- The product of a request for zeros has no 32-bit value, or no gap has room for so many
bytes and what comes with them. -/
def LacksZeros (c : Checker Heap) (count size : UInt32) : Prop :=
  addressCount ≤ count.toNat * size.toNat ∨
    ∀ e, c.heap.Gap e → e.length.toNat < roundUp (count.toNat * size.toNat + 1)

/-- How a request for `count` times `size` zeros is answered. -/
structure AnswersZeros (c : Checker Heap) (count size : UInt32) : Prop where
  /-- It does not fail. -/
  answered : ∃ answer, (c.allocateZeros count size).1 = .ok answer
  /-- There is no address exactly if no place is found. -/
  none_iff : (c.allocateZeros count size).1 = .ok none ↔ c.LacksZeros count size
  /-- Then nothing has changed. -/
  unchanged : (c.allocateZeros count size).1 = .ok none → (c.allocateZeros count size).2 = c
  /-- Else there is a new region of this size, filled with zeros. -/
  zeroes : ∀ addr, (c.allocateZeros count size).1 = .ok (some addr) →
    (count * size).toNat = count.toNat * size.toNat ∧
      c.Zeroes (c.allocateZeros count size).2 addr (count * size)

variable {config : Config} {strays : Set Extent} {c after : Checker Heap} {live : Set Bounds}
  {addr : Addr} {count size : UInt32}

/-- A new block that memory backs is cleared, and is the answer. -/
theorem clearFresh_of_mapped (hmapped : c.heap.mapped addr size = .ok ()) :
    c.clearFresh addr size = (.ok (some addr),
      ⟨c.table, { c.heap with bytes := c.heap.bytes.clear addr.toNat size.toNat }, c.config⟩) := by
  have hclear : Allocator.clear c.heap addr size = c.heap.clear addr size := rfl
  simp only [clearFresh, hclear, Heap.clear_of_mapped hmapped]

/-- Clearing the allocation that has just been registered leaves a region of zeros. -/
theorem InStep.zeroes (h : InStep config strays c live)
    (hallocates : Allocates config strays live c ⟨addr, size⟩ after)
    (hheap : c.heap.allocate size = (some addr, after.heap)) :
    ∃ cleared, after.clearFresh addr size = (.ok (some addr), cleared) ∧
      c.Zeroes cleared addr size := by
  have hinstep := hallocates.inStep
  have hmapped : after.heap.mapped addr size = .ok () :=
    hinstep.mapped_of_has (Set.mem_insert _ _) hallocates.has (Nat.le_refl _)
  have hbefore : c.table.liveRegions = live := h.tracks.liveRegions_eq
  have hafter : after.table.liveRegions = insert ⟨addr, size⟩ live := hinstep.tracks.liveRegions_eq
  refine ⟨_, clearFresh_of_mapped hmapped, ?_⟩
  refine ⟨by rw [hbefore]; exact hafter, ?_, ?_, congrArg Prod.fst hheap, by rw [hheap], ?_, ?_⟩
  · rw [hbefore]
    intro hmem
    exact (hallocates.apart _ hmem).start_ne rfl
  · rw [hbefore]
    exact hallocates.apart
  · intro place hfrom hto
    dsimp only
    rw [Bytes.get_clear, if_pos ⟨hfrom, hto⟩]
  · intro place hout
    dsimp only
    rw [Bytes.get_clear, if_neg (by omega), hallocates.bytes_eq]

theorem toNat_mul_of_lt (hfits : count.toNat * size.toNat < addressCount) :
    (count * size).toNat = count.toNat * size.toNat :=
  (UInt32.toNat_mul _ _).trans (Nat.mod_eq_of_lt hfits)

/-- Without room nothing has happened. -/
theorem AnswersZeros.of_none (hnone : c.allocateZeros count size = (.ok none, c))
    (hlacks : c.LacksZeros count size) : c.AnswersZeros count size where
  answered := ⟨none, congrArg Prod.fst hnone⟩
  none_iff := iff_of_true (congrArg Prod.fst hnone) hlacks
  unchanged _ := congrArg Prod.snd hnone
  zeroes other hother := by
    rw [hnone] at hother
    cases hother

/-- Otherwise there is one new region, filled with zeros. -/
theorem AnswersZeros.of_some (hsome : c.allocateZeros count size = (.ok (some addr), after))
    (hfinds : ¬ c.LacksZeros count size) (hzeroes : c.Zeroes after addr (count * size))
    (hproduct : (count * size).toNat = count.toNat * size.toNat) : c.AnswersZeros count size where
  answered := ⟨some addr, congrArg Prod.fst hsome⟩
  none_iff := by
    refine iff_of_false ?_ hfinds
    rw [hsome]
    exact fun hnone => by cases hnone
  unchanged hnone := by
    rw [hsome] at hnone
    cases hnone
  zeroes other hother := by
    rw [hsome] at hother ⊢
    obtain rfl := Option.some.inj (Except.ok.inj hother)
    exact ⟨hproduct, hzeroes⟩

/-- Any request of a checker whose heap and table are in step. -/
theorem InStep.answersZeros (h : InStep config strays c live) (htidy : c.heap.Tidy)
    (count size : UInt32) : c.AnswersZeros count size := by
  by_cases hlarge : addressCount ≤ count.toNat * size.toNat
  · exact .of_none (if_pos hlarge) (.inl hlarge)
  · have hproduct := toNat_mul_of_lt (Nat.lt_of_not_le hlarge)
    have hlacks : (c.heap.allocate (count * size)).1 = none ↔ c.LacksZeros count size := by
      rw [htidy.fst_allocate_eq_none_iff, Heap.lacks_iff, hproduct]
      exact (or_iff_right hlarge).symm
    have hunfold : c.allocateZeros count size = _ := if_neg hlarge
    rcases h.allocate (count * size) with ⟨hnone, hheap⟩ | ⟨addr, later, hsome, hallocates, hheap⟩
    · rw [hnone] at hunfold
      rw [hheap] at hlacks
      exact .of_none hunfold (hlacks.mp rfl)
    · obtain ⟨cleared, hcleared, hzeroes⟩ := h.zeroes hallocates hheap
      rw [hsome] at hunfold
      rw [hheap] at hlacks
      exact .of_some (hunfold.trans hcleared) (fun hnone => nomatch hlacks.mpr hnone) hzeroes
        hproduct

/-- Wherever operations have taken a checker. -/
theorem answersZeros_of_reached (hreached : Reached config c) (count size : UInt32) :
    c.AnswersZeros count size :=
  hreached.inStep.answersZeros hreached.tidy count size

/-- Behind an allocation three times five zeros find a place; a product of 33 bits does
not. -/
theorem answersZeros_of_reached_carved :
    ∃ c, Reached strictConfig c ∧ (c.allocateZeros 3 5).1 = .ok (some 0x10000018) ∧
      (c.allocateZeros 3 5).2.table.liveRegions = {⟨0x10000018, 15⟩, ⟨0x10000000, 16⟩} ∧
      (c.allocateZeros 3 5).2.heap.bytes.get 0x10000026 = 0 ∧
      c.allocateZeros 0x10000 0x10000 = (.ok none, c) := by
  obtain ⟨c, hreached, hlive, hheap⟩ := exists_reached_carved
  have hanswer := answersZeros_of_reached hreached 3 5
  have hfirst : (c.heap.allocate 15).1 = some 0x10000018 := by
    rw [hheap]
    decide
  have hgap : c.heap.Gap ⟨0x10000018, 0xffffe8⟩ := by
    rw [← hreached.tidy.mem_free_iff, hheap]
    decide
  obtain ⟨answer, hok⟩ := hanswer.answered
  cases answer with
  | none =>
      rcases hanswer.none_iff.mp hok with hlarge | hshort
      · exact absurd hlarge (by decide)
      · exact absurd (hshort _ hgap) (by decide)
  | some addr =>
      obtain ⟨-, hzeroes⟩ := hanswer.zeroes addr hok
      obtain rfl : addr = 0x10000018 := Option.some.inj (hzeroes.allocated.symm.trans hfirst)
      have hrefused := answersZeros_of_reached hreached 0x10000 0x10000
      have hnone := hrefused.none_iff.mpr (.inl (by decide))
      refine ⟨c, hreached, hok, ?_, hzeroes.get_zero _ (by decide) (by decide),
        Prod.ext hnone (hrefused.unchanged hnone)⟩
      rw [hzeroes.liveRegions_eq, hlive]
      rfl

end Checker

end RegionGuard
