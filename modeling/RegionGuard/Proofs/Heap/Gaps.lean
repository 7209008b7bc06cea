import RegionGuard.Proofs.Heap.Memory

/-!
# Free extents are gaps

Tiling leaves open how the places that are not in use are cut into extents.  A tidy heap
cuts them as little as it can: no free extent ends where another one starts.  So each is
a gap, a maximal run of usable places that are not in use, and there is no other gap.
The gaps depend on the live extents only, and with them the list of the free ones,
whatever has been handed out and taken back before.

Handing out the front of a free extent keeps the rest apart from the others, because it
ends where the whole ended.  Taking an extent back does so because it is joined with the
free neighbours on both sides.
-/

namespace RegionGuard

namespace Extents

/-- No extent ends where another one starts. -/
def Spaced (extents : Extents) : Prop :=
  ∀ x ∈ extents, ∀ y ∈ extents, x.stop ≠ y.start.toNat

/-- Every extent starts at a multiple of the heap's unit. -/
def Aligned (extents : Extents) : Prop :=
  ∀ e ∈ extents, heapUnit ∣ e.start.toNat

variable {extents others : Extents} {e x : Extent}

theorem Spaced.subset (h : Spaced extents) (hsub : ∀ x ∈ others, x ∈ extents) : Spaced others :=
  fun x hx y hy => h x (hsub x hx) y (hsub y hy)

/-- An extent that neither ends where another one starts nor starts where one ends can be
inserted. -/
theorem Spaced.insert (h : Spaced extents) (hsorted : Sorted extents)
    (hpos : 0 < e.length.toNat) (hbehind : ∀ x ∈ extents, e.stop ≠ x.start.toNat)
    (hbefore : ∀ x ∈ extents, x.start ≠ e.start → x.stop ≠ e.start.toNat) :
    Spaced (insert extents e) := by
  have hself : e.stop ≠ e.start.toNat := by
    unfold Extent.stop
    omega
  intro x hx y hy
  rcases hsorted.mem_insert_iff.mp hx with rfl | ⟨hx', hne⟩
  · rcases hsorted.mem_insert_iff.mp hy with rfl | ⟨hy', -⟩
    · exact hself
    · exact hbehind y hy'
  · rcases hsorted.mem_insert_iff.mp hy with rfl | ⟨hy', -⟩
    · exact hbefore x hx' hne
    · exact h x hx' y hy'

theorem Aligned.insert (h : Aligned extents) (hsorted : Sorted extents)
    (he : heapUnit ∣ e.start.toNat) : Aligned (insert extents e) := by
  intro x hx
  rcases hsorted.mem_insert_iff.mp hx with rfl | ⟨hx', -⟩
  · exact he
  · exact h x hx'

theorem Aligned.erase (h : Aligned extents) (start : Addr) : Aligned (erase extents start) :=
  fun x hx => h x (mem_erase_iff.mp hx).1

/-- Sorted lists with the same extents are the same. -/
theorem Sorted.eq_of_mem_iff (h : Sorted extents) (h' : Sorted others)
    (hmem : ∀ x, x ∈ extents ↔ x ∈ others) : extents = others := by
  have hnodup : ∀ l : Extents, Sorted l → l.Nodup := by
    intro l hl
    refine List.Pairwise.imp ?_ hl
    intro x y hlt heq
    rw [heq] at hlt
    exact UInt32.lt_irrefl _ hlt
  have hperm := (List.perm_ext_iff_of_nodup (hnodup _ h) (hnodup _ h')).mpr hmem
  refine hperm.eq_of_pairwise ?_ h h'
  intro x y _ _ hlt hgt
  exact absurd (UInt32.lt_trans hlt hgt) (UInt32.lt_irrefl _)

end Extents

theorem dvd_roundUp (n : Nat) : heapUnit ∣ roundUp n :=
  Nat.dvd_mul_left _ _

namespace Heap

/-- The place can be handed out and is not in use. -/
def Vacant (heap : Heap) (place : Nat) : Prop :=
  Usable heap.zone place ∧ ∀ e ∈ heap.live, ¬ e.Covers place

/-- The extent is a maximal run of vacant places. -/
structure Gap (heap : Heap) (e : Extent) : Prop where
  length_pos : 0 < e.length.toNat
  vacant : ∀ place, e.Covers place → heap.Vacant place
  before : ∀ place, place + 1 = e.start.toNat → ¬ heap.Vacant place
  behind : ¬ heap.Vacant e.stop

/-- The extents tile the usable places, start at multiples of the unit, and no free one
ends where another free one starts. -/
structure Tidy (heap : Heap) : Prop where
  tiled : heap.Tiled
  spaced : heap.free.Spaced
  free_aligned : heap.free.Aligned
  live_aligned : heap.live.Aligned

/-- No gap has room for an allocation of `size` bytes and what comes with it. -/
def Lacks (heap : Heap) (size : UInt32) : Prop :=
  addressCount ≤ roundUp (size.toNat + 1) ∨
    ∀ e, heap.Gap e → e.length.toNat < roundUp (size.toNat + 1)

variable {heap other : Heap} {e : Extent} {place : Nat}

/-! ## Gaps -/

/-- A place is vacant exactly if it lies in a free extent. -/
theorem Tiled.vacant_iff (h : heap.Tiled) :
    heap.Vacant place ↔ ∃ x ∈ heap.free, x.Covers place := by
  have hcover := h.cover_eq place
  constructor
  · intro hvacant
    obtain ⟨husable, hnone⟩ := hvacant
    have hlive : heap.live.cover place = 0 := by
      simpa [Extents.cover, List.countP_eq_zero] using hnone
    rw [if_pos husable, hlive] at hcover
    have hpos : 0 < heap.free.cover place := by omega
    obtain ⟨x, hx, hplace⟩ := List.countP_pos_iff.mp hpos
    exact ⟨x, hx, by simpa using hplace⟩
  · intro hfree
    obtain ⟨x, hx, hplace⟩ := hfree
    exact ⟨h.free_usable hx hplace, fun y hy hy' => h.not_free_and_live hx hy hplace hy'⟩

/-- A free extent cannot be made longer. -/
theorem Tidy.gap_of_mem (h : heap.Tidy) (he : e ∈ heap.free) : heap.Gap e where
  length_pos := h.tiled.free_pos e he
  vacant _ hplace := h.tiled.vacant_iff.mpr ⟨e, he, hplace⟩
  before place hstart hvacant := by
    obtain ⟨x, hx, hfrom, hto⟩ := h.tiled.vacant_iff.mp hvacant
    have hstop := h.spaced x hx e he
    have hinside : x.Covers e.start.toNat := ⟨by omega, by omega⟩
    have hcovers := Extent.covers_start (h.tiled.free_pos e he)
    obtain rfl := h.tiled.free_eq_of_covers hx he hinside hcovers
    omega
  behind hvacant := by
    obtain ⟨x, hx, hfrom, hto⟩ := h.tiled.vacant_iff.mp hvacant
    have hpos := h.tiled.free_pos e he
    have hstart := h.spaced e he x hx
    have hestop : e.stop = e.start.toNat + e.length.toNat := rfl
    have hlast : e.Covers (e.stop - 1) := ⟨by omega, by omega⟩
    have hinside : x.Covers (e.stop - 1) := ⟨by omega, by omega⟩
    obtain rfl := h.tiled.free_eq_of_covers hx he hinside hlast
    omega

/-- The free extents are exactly the gaps. -/
theorem Tidy.mem_free_iff (h : heap.Tidy) : e ∈ heap.free ↔ heap.Gap e := by
  refine ⟨h.gap_of_mem, ?_⟩
  intro hgap
  have hestop : e.stop = e.start.toNat + e.length.toNat := rfl
  have hpos := hgap.length_pos
  obtain ⟨x, hx, hfrom, hto⟩ := h.tiled.vacant_iff.mp (hgap.vacant _ (Extent.covers_start hpos))
  have hx' := h.gap_of_mem hx
  have hxstop : x.stop = x.start.toNat + x.length.toNat := rfl
  -- both are maximal, so neither can start or end inside the other
  have hstart : x.start.toNat = e.start.toNat := by
    by_contra hne
    have hinside : x.Covers (e.start.toNat - 1) := ⟨by omega, by omega⟩
    exact hgap.before _ (by omega) (hx'.vacant _ hinside)
  have hstop : x.stop = e.stop := by
    rcases Nat.lt_trichotomy x.stop e.stop with hlt | heq | hgt
    · exact absurd (hgap.vacant x.stop ⟨by omega, hlt⟩) hx'.behind
    · exact heq
    · exact absurd (hx'.vacant e.stop ⟨by omega, hgt⟩) hgap.behind
  have hlength : x.length.toNat = e.length.toNat := by omega
  obtain rfl : x = e := by
    cases x
    cases e
    exact congrArg₂ Extent.mk (UInt32.toNat_inj.mp hstart) (UInt32.toNat_inj.mp hlength)
  exact hx

/-- Whether an extent is a gap depends on the vacant places alone. -/
theorem Gap.of_vacant_iff (h : heap.Gap e)
    (hvacant : ∀ place, other.Vacant place ↔ heap.Vacant place) : other.Gap e where
  length_pos := h.length_pos
  vacant place hplace := (hvacant place).mpr (h.vacant place hplace)
  before place hstart hbefore := h.before place hstart ((hvacant place).mp hbefore)
  behind hbehind := h.behind ((hvacant e.stop).mp hbehind)

/-- The free extents are determined by the live ones. -/
theorem Tidy.free_eq (h : heap.Tidy) (h' : other.Tidy) (hzone : other.zone = heap.zone)
    (hlive : other.live = heap.live) : other.free = heap.free := by
  have hvacant : ∀ place, other.Vacant place ↔ heap.Vacant place := by
    intro place
    unfold Vacant
    rw [hzone, hlive]
  refine h'.tiled.free_sorted.eq_of_mem_iff h.tiled.free_sorted ?_
  intro x
  rw [h.mem_free_iff, h'.mem_free_iff]
  constructor
  · intro hgap
    exact hgap.of_vacant_iff fun place => (hvacant place).symm
  · intro hgap
    exact hgap.of_vacant_iff hvacant

/-- An allocation finds no room exactly if no gap has it. -/
theorem Tidy.fst_allocate_eq_none_iff (h : heap.Tidy) (size : UInt32) :
    (heap.allocate size).1 = none ↔ heap.Lacks size := by
  unfold Lacks
  simp only [← h.mem_free_iff]
  cases hneeded : needed? size with
  | none =>
      have hlong : addressCount ≤ roundUp (size.toNat + 1) := by
        by_contra hfits
        simp [needed?, hfits] at hneeded
      simp [allocate, hneeded, hlong]
  | some needed =>
      have hlength := toNat_needed hneeded
      have hshort : ¬ addressCount ≤ roundUp (size.toNat + 1) := by
        rw [← hlength]
        exact Nat.not_le.mpr needed.toNat_lt
      have hfit : ∀ e : Extent, ¬ needed ≤ e.length ↔ e.length.toNat < roundUp (size.toNat + 1) := by
        intro e
        rw [← hlength, UInt32.le_iff_toNat_le, Nat.not_le]
      cases hfound : heap.free.find? (needed ≤ ·.length) with
      | none =>
          have hnone : ∀ e ∈ heap.free, ¬ needed ≤ e.length := by simpa using hfound
          simp only [allocate, hneeded, hfound, true_iff]
          exact .inr fun e he => (hfit e).mp (hnone e he)
      | some found =>
          have hlong : needed ≤ found.length := by simpa using List.find?_some hfound
          have hmem := List.mem_of_find?_eq_some hfound
          simp only [allocate, hneeded, hfound, reduceCtorEq, false_iff, not_or, not_forall]
          exact ⟨hshort, found, hmem, fun hlt => (hfit found).mpr hlt hlong⟩

/-- What is handed out starts at a multiple of the unit. -/
theorem Tidy.dvd_of_allocate (h : heap.Tidy) {size : UInt32} {addr : Addr}
    (hsome : (heap.allocate size).1 = some addr) : heapUnit ∣ addr.toNat := by
  rcases heap.allocate_cases size with hnone | ⟨needed, found, -, hfound, -, hcarved⟩
  · rw [hnone] at hsome
    cases hsome
  · rw [hcarved] at hsome
    obtain rfl := Option.some.inj hsome
    exact h.free_aligned found hfound

/-! ## A fresh heap -/

/-- A fresh heap has at most one free extent, which starts at a multiple of the unit. -/
theorem tidy_fresh {zone : Zone} (hfits : zone.stop ≤ addressCount) : (fresh zone).Tidy := by
  have htiled := tiled_fresh hfits
  have honly : ∀ x ∈ (fresh zone).free, x.start.toNat = firstUsable zone := by
    intro x hx
    by_cases hroom : firstUsable zone < zone.stop
    · simp only [fresh, if_pos hroom, List.mem_singleton] at hx
      rw [hx]
      exact UInt32.toNat_ofNat_of_lt' (Nat.lt_of_lt_of_le hroom hfits)
    · simp only [fresh, if_neg hroom] at hx
      cases hx
  refine ⟨htiled, ?_, ?_, fun e he => absurd he List.not_mem_nil⟩
  · intro x hx y hy
    have hpos := htiled.free_pos x hx
    have hxstop : x.stop = x.start.toNat + x.length.toNat := rfl
    rw [hxstop, honly x hx, honly y hy]
    omega
  · intro x hx
    rw [honly x hx]
    exact dvd_roundUp _

/-! ## Handing out -/

/-- What is left of a free extent is spaced from the others as the whole was. -/
theorem Tidy.spaced_carve (h : heap.Tidy) {needed : UInt32} {found : Extent}
    (hfound : found ∈ heap.free) (hneeded : 0 < needed.toNat) :
    (heap.carve needed found).free.Spaced := by
  have hothers : (heap.free.erase found.start).Spaced :=
    h.spaced.subset fun x hx => (Extents.mem_erase_iff.mp hx).1
  by_cases hshorter : needed < found.length
  · have hshorter' : needed.toNat < found.length.toNat := hshorter
    obtain ⟨-, htouch, hstop⟩ := h.tiled.join_rest hfound hshorter
    have hmiddle : Extent.stop ⟨found.start, needed⟩ = found.start.toNat + needed.toNat := rfl
    have hfoundstop : found.stop = found.start.toNat + found.length.toNat := rfl
    have hreststop : Extent.stop ⟨found.start + needed, found.length - needed⟩ =
        (found.start + needed).toNat + (found.length - needed).toNat := rfl
    have hlength := UInt32.toNat_sub_of_le found.length needed (UInt32.le_of_lt hshorter)
    have hfree : (heap.carve needed found).free = Extents.insert (heap.free.erase found.start)
        ⟨found.start + needed, found.length - needed⟩ := if_pos hshorter
    rw [hfree]
    refine hothers.insert (h.tiled.free_sorted.erase _)
      (show 0 < (found.length - needed).toNat by omega) ?_ ?_
    · intro x hx
      rw [← hstop]
      exact h.spaced found hfound x (Extents.mem_erase_iff.mp hx).1
    · intro x hx _ hxstop
      obtain ⟨hx', hne⟩ := Extents.mem_erase_iff.mp hx
      have hpos := h.tiled.free_pos x hx'
      have hxlength : x.stop = x.start.toNat + x.length.toNat := rfl
      -- the last place of such an extent would lie in the part that is handed out
      have hlast : x.Covers (found.start.toNat + needed.toNat - 1) := ⟨by omega, by omega⟩
      have hinside : found.Covers (found.start.toNat + needed.toNat - 1) := ⟨by omega, by omega⟩
      exact hne (congrArg Extent.start (h.tiled.free_eq_of_covers hx' hfound hlast hinside))
  · have hfree : (heap.carve needed found).free = heap.free.erase found.start := if_neg hshorter
    rw [hfree]
    exact hothers

/-- Cutting off whole units from the front of a free extent keeps the heap tidy. -/
theorem Tidy.carve (h : heap.Tidy) {needed : UInt32} {found : Extent} (hfound : found ∈ heap.free)
    (hunit : heapUnit ∣ needed.toNat) (hneeded : 0 < needed.toNat) (hlong : needed ≤ found.length) :
    (heap.carve needed found).Tidy := by
  have hstart := h.free_aligned found hfound
  have herased := h.free_aligned.erase found.start
  refine ⟨h.tiled.carve hfound hneeded hlong, h.spaced_carve hfound hneeded, ?_,
    h.live_aligned.insert h.tiled.live_sorted hstart⟩
  by_cases hshorter : needed < found.length
  · have htouch := (h.tiled.join_rest hfound hshorter).touch
    have hfree : (Heap.carve heap needed found).free = Extents.insert (heap.free.erase found.start)
        ⟨found.start + needed, found.length - needed⟩ := if_pos hshorter
    rw [hfree]
    refine herased.insert (h.tiled.free_sorted.erase _) ?_
    rw [htouch]
    exact Nat.dvd_add hstart hunit
  · have hfree : (Heap.carve heap needed found).free = heap.free.erase found.start := if_neg hshorter
    rw [hfree]
    exact herased

/-- An allocation keeps the heap tidy, because it cuts off whole units. -/
theorem Tidy.allocate (h : heap.Tidy) (size : UInt32) : (heap.allocate size).2.Tidy := by
  rcases heap.allocate_cases size with hnone | ⟨needed, found, hneeded, hfound, hlong, hsome⟩
  · rw [hnone]
    exact h
  · rw [hsome]
    have hround := le_roundUp (size.toNat + 1)
    have hlength := toNat_needed hneeded
    refine h.carve hfound ?_ (by omega) hlong
    rw [hlength]
    exact dvd_roundUp _

/-! ## Taking back -/

section Returns

variable {zone : Zone} {free : Extents} {x : Extent}

/-- After the join with the neighbour behind, no free extent starts where the returned one
ends. -/
theorem Returns.stop_absorbNext_ne (h : Returns zone free e) (hspaced : free.Spaced) :
    ∀ y ∈ (Heap.absorbNext zone free e).1,
      (Heap.absorbNext zone free e).2.stop ≠ y.start.toNat := by
  have hfits : zone.stop ≤ 4294967296 := h.zone_fits
  have hjoins := h.absorbNext
  intro y hy hstop
  have hybounds := (hjoins.1.bounds (List.mem_cons_of_mem _ hy)).2
  have hypos := hjoins.1.free_pos y (List.mem_cons_of_mem _ hy)
  have hystop : y.stop = y.start.toNat + y.length.toNat := rfl
  unfold Heap.absorbNext at hy hstop
  split at hy
  · rename_i hinside
    rw [if_pos hinside] at hstop
    have hnext : (UInt32.ofNat e.stop).toNat = e.stop :=
      UInt32.toNat_ofNat_of_lt' (show _ < 4294967296 by omega)
    cases hlength : Extents.lengthAt? free (UInt32.ofNat e.stop) with
    | none =>
        simp only [hlength] at hy hstop
        have hne := Extents.lengthAt?_eq_none_iff.mp hlength y hy
        exact hne (UInt32.toNat_inj.mp (by rw [hnext, ← hstop]))
    | some length =>
        simp only [hlength] at hy hstop
        have hmem := h.free_sorted.lengthAt?_eq_some_iff.mp hlength
        have hsum := h.toNat_add List.mem_cons_self (List.mem_cons_of_mem _ hmem) hnext
        have hapart := hspaced _ hmem y (Extents.mem_erase_iff.mp hy).1
        unfold Extent.stop at hapart hstop hnext
        dsimp only at hapart hstop hsum
        omega
  · rename_i houtside
    rw [if_neg houtside] at hstop
    dsimp only at hstop
    omega

/-- Joining the neighbour behind does not move the start. -/
theorem Returns.start_absorbNext (zone : Zone) (free : Extents) (e : Extent) :
    (Heap.absorbNext zone free e).2.start = e.start := by
  unfold Heap.absorbNext
  split
  · split <;> rfl
  · rfl

/-- It leaves no free extent that was not there. -/
theorem mem_of_mem_absorbNext (hx : x ∈ (absorbNext zone free e).1) : x ∈ free := by
  unfold absorbNext at hx
  split at hx
  · split at hx
    · exact (Extents.mem_erase_iff.mp hx).1
    · exact hx
  · exact hx

/-- A free extent that ends where the returned one starts is the one found before it. -/
theorem Returns.before?_of_touch (h : Returns zone free e) (hx : x ∈ free)
    (htouch : x.stop = e.start.toNat) : Extents.before? free e.start = some x := by
  have hxpos := h.free_pos x (List.mem_cons_of_mem _ hx)
  have hxstop : x.stop = x.start.toNat + x.length.toNat := rfl
  have hstart : x.start < e.start := UInt32.lt_iff_toNat_lt.mpr (by omega)
  cases hbefore : Extents.before? free e.start with
  | none => exact absurd hstart (Extents.before?_eq_none hbefore x hx)
  | some y =>
      obtain ⟨hy, hystart⟩ := Extents.before?_eq_some hbefore
      rcases h.free_sorted.le_before? hbefore hx hstart with rfl | hlt
      · rfl
      · have hlt' : x.start.toNat < y.start.toNat := hlt
        have hystart' : y.start.toNat < e.start.toNat := hystart
        have hinside : x.Covers y.start.toNat := ⟨by omega, by omega⟩
        have honce : Extents.cover free y.start.toNat ≤ 1 := by
          have := h.once y.start.toNat
          rw [Extents.cover_cons] at this
          omega
        have hself := Extent.covers_start (h.free_pos y (List.mem_cons_of_mem _ hy))
        rw [h.free_sorted.eq_of_covers honce hx hy hinside hself]

/-- The returned extent is joined with both neighbours, so the free ones stay spaced. -/
theorem Returns.spaced_reclaim (h : Returns zone free e) (hspaced : free.Spaced) :
    (Heap.reclaim zone free e).Spaced := by
  have h' := h.absorbNext.1
  have hbehind := h.stop_absorbNext_ne hspaced
  have hspaced' : (Heap.absorbNext zone free e).1.Spaced :=
    hspaced.subset fun x hx => mem_of_mem_absorbNext hx
  rw [reclaim_eq]
  generalize (Heap.absorbNext zone free e).1 = free' at *
  generalize (Heap.absorbNext zone free e).2 = e' at *
  have hpos := h'.free_pos e' List.mem_cons_self
  have hestop : e'.stop = e'.start.toNat + e'.length.toNat := rfl
  cases hbefore : Extents.before? free' e'.start with
  | none =>
      refine hspaced'.insert h'.free_sorted hpos hbehind ?_
      intro x hx _ htouch
      cases hbefore.symm.trans (h'.before?_of_touch hx htouch)
  | some before =>
      dsimp only
      obtain ⟨hmem, -⟩ := Extents.before?_eq_some hbefore
      by_cases htouch : before.stop = e'.start.toNat
      · rw [if_pos htouch]
        have hsum := h'.toNat_add (List.mem_cons_of_mem _ hmem) List.mem_cons_self htouch.symm
        rw [UInt32.add_comm] at hsum
        have hbeforestop : before.stop = before.start.toNat + before.length.toNat := rfl
        have hstop : Extent.stop ⟨before.start, e'.length + before.length⟩ = e'.stop := by
          unfold Extent.stop at *
          dsimp only
          omega
        refine hspaced'.insert h'.free_sorted (show 0 < (e'.length + before.length).toNat by omega)
          ?_ ?_
        · intro x hx
          rw [hstop]
          exact hbehind x hx
        · intro x hx _
          exact hspaced' x hx before hmem
      · rw [if_neg htouch]
        refine hspaced'.insert h'.free_sorted hpos hbehind ?_
        intro x hx _ hxtouch
        obtain rfl := Option.some.inj (hbefore.symm.trans (h'.before?_of_touch hx hxtouch))
        exact htouch hxtouch

/-- The start of what is taken back is that of the extent or of its neighbour before it, so it
is aligned. -/
theorem Returns.aligned_reclaim (h : Returns zone free e) (haligned : free.Aligned)
    (hstart : heapUnit ∣ e.start.toNat) : (Heap.reclaim zone free e).Aligned := by
  have hsorted := h.absorbNext.1.free_sorted
  have haligned' : (Heap.absorbNext zone free e).1.Aligned := fun x hx =>
    haligned x (mem_of_mem_absorbNext hx)
  have hstart' : heapUnit ∣ (Heap.absorbNext zone free e).2.start.toNat := by
    rw [Returns.start_absorbNext]
    exact hstart
  rw [reclaim_eq]
  split
  · rename_i before hbefore
    split
    · exact haligned'.insert hsorted (haligned' before (Extents.before?_eq_some hbefore).1)
    · exact haligned'.insert hsorted hstart'
  · exact haligned'.insert hsorted hstart'

end Returns

/-- Taking back keeps the heap tidy, since it joins the free extents that touch. -/
theorem Tidy.release (h : heap.Tidy) (addr : Addr) : (heap.release addr).Tidy := by
  by_cases hlive : ∃ e ∈ heap.live, e.start = addr
  · obtain ⟨e, he, rfl⟩ := hlive
    have hreturns := h.tiled.returns he
    have htiled := h.tiled.release e.start
    rw [release_of_mem h.tiled.live_sorted he] at htiled ⊢
    exact ⟨htiled, hreturns.spaced_reclaim h.spaced,
      hreturns.aligned_reclaim h.free_aligned (h.live_aligned e he), h.live_aligned.erase e.start⟩
  · push Not at hlive
    rw [release_of_none hlive]
    exact h

end Heap

end RegionGuard
