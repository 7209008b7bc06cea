import RegionGuard.Heap.Basic
import RegionGuard.Proofs.Heap.Extents

/-!
# The extents of a heap

The free and the live extents together cover every usable place of the zone
exactly once and nothing else.  So they are disjoint and lie within the zone, and
their ends do not wrap.  A fresh heap has this property, and handing out a piece
and taking one back keep it: both only cut extents in two or join neighbours.
-/

namespace RegionGuard

theorem le_roundUp (n : Nat) : n ≤ roundUp n := by
  show n ≤ (n + 8 - 1) / 8 * 8
  omega

theorem Extent.covers_start {e : Extent} (hpos : 0 < e.length.toNat) : e.Covers e.start.toNat :=
  ⟨Nat.le_refl _, Nat.lt_add_of_pos_right hpos⟩

namespace Heap

/-- Address 0 is never handed out. -/
theorem firstUsable_pos (zone : Zone) : 0 < firstUsable zone := by
  have hround := le_roundUp (zone.start.toNat + if zone.start = 0 then heapUnit else 0)
  have hplace : 0 < zone.start.toNat + if zone.start = 0 then heapUnit else 0 := by
    split
    · exact Nat.add_pos_right _ (by decide)
    · rename_i hne
      have hne' : zone.start.toNat ≠ 0 := fun heq => hne (UInt32.toNat_inj.mp heq)
      omega
  exact Nat.lt_of_lt_of_le hplace hround

theorem le_firstUsable (zone : Zone) : zone.start.toNat ≤ firstUsable zone :=
  Nat.le_trans (Nat.le_add_right _ _) (le_roundUp _)

/-- The place may be handed out. -/
def Usable (zone : Zone) (place : Nat) : Prop :=
  firstUsable zone ≤ place ∧ place < zone.stop

instance (zone : Zone) (place : Nat) : Decidable (Usable zone place) :=
  inferInstanceAs (Decidable (_ ∧ _))

/-- An extent covers usable places only. -/
theorem bounds_of_usable {zone : Zone} {e : Extent} (hpos : 0 < e.length.toNat)
    (husable : ∀ place, e.Covers place → Usable zone place) :
    firstUsable zone ≤ e.start.toNat ∧ e.stop ≤ zone.stop := by
  have hfirst := husable _ (Extent.covers_start hpos)
  have hlast : e.Covers (e.stop - 1) := by
    unfold Extent.Covers Extent.stop
    omega
  have hlast' := husable _ hlast
  have hstop : e.stop = e.start.toNat + e.length.toNat := rfl
  refine ⟨hfirst.1, ?_⟩
  have := hlast'.2
  omega

/-- Every usable place lies in exactly one extent, and no other place in any. -/
structure Tiled (heap : Heap) : Prop where
  zone_fits : heap.zone.stop ≤ addressCount
  free_sorted : heap.free.Sorted
  live_sorted : heap.live.Sorted
  free_pos : ∀ e ∈ heap.free, 0 < e.length.toNat
  live_pos : ∀ e ∈ heap.live, 0 < e.length.toNat
  cover_eq : ∀ place, heap.free.cover place + heap.live.cover place =
    if Usable heap.zone place then 1 else 0

namespace Tiled

variable {heap : Heap} {e x y : Extent} {place : Nat}

/-- Free extents lie in the usable part of the zone. -/
theorem free_usable (h : heap.Tiled) (he : e ∈ heap.free) (hplace : e.Covers place) :
    Usable heap.zone place := by
  have hpos := Extents.cover_pos he hplace
  have hcover := h.cover_eq place
  by_contra hout
  rw [if_neg hout] at hcover
  omega

theorem live_usable (h : heap.Tiled) (he : e ∈ heap.live) (hplace : e.Covers place) :
    Usable heap.zone place := by
  have hpos := Extents.cover_pos he hplace
  have hcover := h.cover_eq place
  by_contra hout
  rw [if_neg hout] at hcover
  omega

/-- In numbers, a free extent starts behind what is kept back and stops within the zone. -/
theorem free_bounds (h : heap.Tiled) (he : e ∈ heap.free) :
    firstUsable heap.zone ≤ e.start.toNat ∧ e.stop ≤ heap.zone.stop :=
  bounds_of_usable (h.free_pos e he) fun _ hplace => h.free_usable he hplace

theorem live_bounds (h : heap.Tiled) (he : e ∈ heap.live) :
    firstUsable heap.zone ≤ e.start.toNat ∧ e.stop ≤ heap.zone.stop :=
  bounds_of_usable (h.live_pos e he) fun _ hplace => h.live_usable he hplace

/-- No place is covered twice, by free or by live extents. -/
theorem cover_le (h : heap.Tiled) (place : Nat) :
    heap.free.cover place + heap.live.cover place ≤ 1 := by
  rw [h.cover_eq]
  split <;> decide

/-- No place is both free and in use. -/
theorem not_free_and_live (h : heap.Tiled) (hx : x ∈ heap.free) (hy : y ∈ heap.live)
    (hxplace : x.Covers place) (hyplace : y.Covers place) : False := by
  have hfree := Extents.cover_pos hx hxplace
  have hlive := Extents.cover_pos hy hyplace
  have := h.cover_le place
  omega

/-- No extent in use starts where a free one does. -/
theorem start_ne_of_free (h : heap.Tiled) (hx : x ∈ heap.free) :
    ∀ y ∈ heap.live, y.start ≠ x.start := by
  intro y hy hstart
  have hycovers := Extent.covers_start (h.live_pos y hy)
  rw [hstart] at hycovers
  exact h.not_free_and_live hx hy (Extent.covers_start (h.free_pos x hx)) hycovers

/-- Two free extents that share a place are one. -/
theorem free_eq_of_covers (h : heap.Tiled) (hx : x ∈ heap.free) (hy : y ∈ heap.free)
    (hxplace : x.Covers place) (hyplace : y.Covers place) : x = y :=
  h.free_sorted.eq_of_covers (Nat.le_trans (Nat.le_add_right _ _) (h.cover_le place))
    hx hy hxplace hyplace

theorem live_eq_of_covers (h : heap.Tiled) (hx : x ∈ heap.live) (hy : y ∈ heap.live)
    (hxplace : x.Covers place) (hyplace : y.Covers place) : x = y :=
  h.live_sorted.eq_of_covers (Nat.le_trans (Nat.le_add_left _ _) (h.cover_le place))
    hx hy hxplace hyplace

end Tiled

/-! ## A fresh heap -/

/-- A fresh heap is one free extent, the usable part of its zone, or nothing if there is none.
-/
theorem tiled_fresh {zone : Zone} (hfits : zone.stop ≤ addressCount) : (fresh zone).Tiled := by
  have hfits' : zone.stop ≤ 4294967296 := hfits
  have hfirst := firstUsable_pos zone
  by_cases hroom : firstUsable zone < zone.stop
  · have hfree : (fresh zone).free =
        [⟨UInt32.ofNat (firstUsable zone), UInt32.ofNat (zone.stop - firstUsable zone)⟩] :=
      if_pos hroom
    have hstart : (UInt32.ofNat (firstUsable zone)).toNat = firstUsable zone :=
      UInt32.toNat_ofNat_of_lt' (show _ < 4294967296 by omega)
    have hlength : (UInt32.ofNat (zone.stop - firstUsable zone)).toNat =
        zone.stop - firstUsable zone :=
      UInt32.toNat_ofNat_of_lt' (show _ < 4294967296 by omega)
    refine ⟨hfits, ?_, List.Pairwise.nil, ?_, fun e he => absurd he (List.not_mem_nil), ?_⟩
    · rw [hfree]
      exact List.pairwise_singleton _ _
    · intro e he
      rw [hfree, List.mem_singleton] at he
      rw [he, hlength]
      omega
    · intro place
      have hcovers : Extent.Covers ⟨UInt32.ofNat (firstUsable zone),
          UInt32.ofNat (zone.stop - firstUsable zone)⟩ place ↔ Usable zone place := by
        unfold Extent.Covers Extent.stop Usable
        rw [hstart, hlength]
        omega
      rw [hfree, Extents.cover_cons, Extents.cover_nil]
      exact if_congr hcovers rfl rfl
  · have hfree : (fresh zone).free = [] := if_neg hroom
    refine ⟨hfits, ?_, List.Pairwise.nil, ?_, fun e he => absurd he (List.not_mem_nil), ?_⟩
    · rw [hfree]
      exact List.Pairwise.nil
    · intro e he
      rw [hfree] at he
      cases he
    · intro place
      have hout : ¬ Usable zone place := by
        unfold Usable
        omega
      rw [hfree, Extents.cover_nil]
      exact (if_neg hout).symm

variable {heap : Heap}

/-! ## Handing out -/

/-- The length that is needed for a request does not wrap: it has room for one byte more, in
whole units. -/
theorem toNat_needed {size needed : UInt32} (h : needed? size = some needed) :
    needed.toNat = roundUp (size.toNat + 1) := by
  unfold needed? at h
  dsimp only at h
  split at h
  · rename_i hfits
    obtain rfl := Option.some.inj h
    exact UInt32.toNat_ofNat_of_lt' hfits
  · cases h

/-- The heap after the front of a free extent has been handed out. -/
def carve (heap : Heap) (needed : UInt32) (found : Extent) : Heap :=
  { heap with
    free :=
      if needed < found.length then
        Extents.insert (heap.free.erase found.start)
          ⟨found.start + needed, found.length - needed⟩
      else heap.free.erase found.start
    live := Extents.insert heap.live ⟨found.start, needed⟩ }

/-- Either there is no room, or the front of a free extent is handed out. -/
theorem allocate_cases (heap : Heap) (size : UInt32) :
    heap.allocate size = (none, heap) ∨
      ∃ needed found, needed? size = some needed ∧ found ∈ heap.free ∧ needed ≤ found.length ∧
        heap.allocate size = (some found.start, heap.carve needed found) := by
  unfold allocate
  cases hneeded : needed? size with
  | none => exact .inl rfl
  | some needed =>
      cases hfound : heap.free.find? (needed ≤ ·.length) with
      | none => exact .inl (by simp only [hfound])
      | some found =>
          have hlong : needed ≤ found.length := by simpa using List.find?_some hfound
          refine .inr ⟨needed, found, rfl, List.mem_of_find?_eq_some hfound, hlong, ?_⟩
          simp only [hfound]
          rfl

/-- The front of a free extent and the rest make up the whole. -/
theorem Tiled.join_rest (h : heap.Tiled) {needed : UInt32} {found : Extent}
    (hfound : found ∈ heap.free) (hshorter : needed < found.length) :
    Extent.Join ⟨found.start, needed⟩ ⟨found.start + needed, found.length - needed⟩ found := by
  have hshorter' : needed.toNat < found.length.toNat := hshorter
  have hfits : heap.zone.stop ≤ 4294967296 := h.zone_fits
  have hstop := (h.free_bounds hfound).2
  have hstop' : found.stop = found.start.toNat + found.length.toNat := rfl
  have hstart : (found.start + needed).toNat = found.start.toNat + needed.toNat :=
    (UInt32.toNat_add _ _).trans (Nat.mod_eq_of_lt (by omega))
  have hlength : (found.length - needed).toNat = found.length.toNat - needed.toNat :=
    UInt32.toNat_sub_of_le _ _ (UInt32.le_of_lt hshorter)
  refine ⟨rfl, hstart, ?_⟩
  show found.stop = (found.start + needed).toNat + (found.length - needed).toNat
  omega

/-- What stays free covers, with the part handed out, what was free before. -/
theorem Tiled.carve_free (h : heap.Tiled) {needed : UInt32} {found : Extent}
    (hfound : found ∈ heap.free) (hlong : needed ≤ found.length) :
    Extents.Sorted (heap.carve needed found).free ∧
      (∀ e ∈ (heap.carve needed found).free, 0 < e.length.toNat) ∧
      ∀ place, Extents.cover (⟨found.start, needed⟩ :: (heap.carve needed found).free) place =
        heap.free.cover place := by
  have herase := h.free_sorted.erase found.start
  have hpos : ∀ e ∈ heap.free.erase found.start, 0 < e.length.toNat :=
    fun e he => h.free_pos e (Extents.mem_erase_iff.mp he).1
  have hlong' : needed.toNat ≤ found.length.toNat := hlong
  by_cases hshorter : needed < found.length
  · have hshorter' : needed.toNat < found.length.toNat := hshorter
    let rest : Extent := ⟨found.start + needed, found.length - needed⟩
    have hfree : (heap.carve needed found).free =
        Extents.insert (heap.free.erase found.start) rest := if_pos hshorter
    have hjoin : Extent.Join ⟨found.start, needed⟩ rest found := h.join_rest hfound hshorter
    have hstart : rest.start.toNat = found.start.toNat + needed.toNat := hjoin.touch
    have hlength : rest.length.toNat = found.length.toNat - needed.toNat :=
      UInt32.toNat_sub_of_le _ _ hlong
    have hrest : ∀ x ∈ heap.free.erase found.start, x.start ≠ rest.start := by
      intro x hx hxstart
      obtain ⟨hx', hne⟩ := Extents.mem_erase_iff.mp hx
      have hxcovers := Extent.covers_start (h.free_pos x hx')
      have hinside : found.Covers x.start.toNat := by
        unfold Extent.Covers Extent.stop
        rw [hxstart, hstart]
        omega
      exact hne (congrArg Extent.start (h.free_eq_of_covers hx' hfound hxcovers hinside))
    rw [hfree]
    refine ⟨herase.insert rest, ?_, fun place => ?_⟩
    · intro e he
      rcases herase.mem_insert_iff.mp he with rfl | ⟨he', -⟩
      · omega
      · exact hpos e he'
    · rw [h.free_sorted.cover_erase hfound, Extents.cover_join hjoin, Extents.cover_cons,
        herase.cover_insert hrest, ← Extents.cover_cons]
  · have hfree : (heap.carve needed found).free = heap.free.erase found.start := if_neg hshorter
    have hexact : needed = found.length := by
      have hshorter' : ¬ needed.toNat < found.length.toNat := hshorter
      exact UInt32.toNat_inj.mp (by omega)
    rw [hfree, hexact]
    exact ⟨herase, hpos, fun place => (h.free_sorted.cover_erase hfound place).symm⟩

/-- What is handed out becomes live, and nothing else does. -/
theorem Tiled.mem_live_carve (h : heap.Tiled) (needed : UInt32) {found : Extent}
    (hfound : found ∈ heap.free) (e : Extent) :
    e ∈ (heap.carve needed found).live ↔ e = ⟨found.start, needed⟩ ∨ e ∈ heap.live := by
  refine h.live_sorted.mem_insert_iff.trans (or_congr_right ?_)
  exact ⟨And.left, fun he => ⟨he, h.start_ne_of_free hfound e he⟩⟩

/-- Cutting a piece off the front of a free extent covers the same places as before. -/
theorem Tiled.carve (h : heap.Tiled) {needed : UInt32} {found : Extent}
    (hfound : found ∈ heap.free) (hneeded : 0 < needed.toNat) (hlong : needed ≤ found.length) :
    (heap.carve needed found).Tiled := by
  obtain ⟨hsorted, hpos, hcover⟩ := h.carve_free hfound hlong
  have hnew := h.start_ne_of_free hfound
  have hlive : ∀ place, (Heap.carve heap needed found).live.cover place =
      Extents.cover (⟨found.start, needed⟩ :: heap.live) place :=
    h.live_sorted.cover_insert hnew
  refine ⟨h.zone_fits, hsorted, h.live_sorted.insert _, hpos, ?_, fun place => ?_⟩
  · intro e he
    rcases (h.mem_live_carve needed hfound e).mp he with rfl | he'
    · exact hneeded
    · exact h.live_pos e he'
  · have hbefore := h.cover_eq place
    rw [← hcover place, Extents.cover_cons] at hbefore
    rw [hlive, Extents.cover_cons]
    exact Eq.trans (by omega) hbefore

/-! ## Taking back -/

/-- An extent that can be added to the free ones. -/
structure Returns (zone : Zone) (free : Extents) (e : Extent) : Prop where
  zone_fits : zone.stop ≤ addressCount
  free_sorted : free.Sorted
  free_pos : ∀ x ∈ e :: free, 0 < x.length.toNat
  once : ∀ place, Extents.cover (e :: free) place ≤ 1
  usable : ∀ place, 0 < Extents.cover (e :: free) place → Usable zone place

section Returns

variable {zone : Zone} {free others : Extents} {e x whole : Extent}

/-- The extent that returns lies within the usable part of the zone, like the free ones. -/
theorem Returns.bounds (h : Returns zone free e) (hx : x ∈ e :: free) :
    firstUsable zone ≤ x.start.toNat ∧ x.stop ≤ zone.stop :=
  bounds_of_usable (h.free_pos x hx) fun place hplace =>
    h.usable place (Extents.cover_pos hx hplace)

/-- It has a start of its own, so its insertion replaces no free extent. -/
theorem Returns.start_ne (h : Returns zone free e) : ∀ x ∈ free, x.start ≠ e.start := by
  intro x hx hstart
  have hxcovers := Extent.covers_start (h.free_pos x (List.mem_cons_of_mem _ hx))
  have hecovers := Extent.covers_start (h.free_pos e List.mem_cons_self)
  have honce := h.once e.start.toNat
  rw [Extents.cover_cons, if_pos hecovers] at honce
  rw [hstart] at hxcovers
  have := Extents.cover_pos hx hxcovers
  omega

/-- The lengths of neighbours in the zone add up without wrapping. -/
theorem Returns.toNat_add (h : Returns zone free e) {front back : Extent}
    (hfront : front ∈ e :: free) (hback : back ∈ e :: free) (htouch : back.start.toNat = front.stop) :
    (front.length + back.length).toNat = front.length.toNat + back.length.toNat := by
  have hfits : zone.stop ≤ 4294967296 := h.zone_fits
  have hfirst := firstUsable_pos zone
  obtain ⟨hfront', -⟩ := h.bounds hfront
  obtain ⟨-, hback'⟩ := h.bounds hback
  have hstop : back.stop = back.start.toNat + back.length.toNat := rfl
  have hmiddle : front.stop = front.start.toNat + front.length.toNat := rfl
  exact (UInt32.toNat_add _ _).trans (Nat.mod_eq_of_lt (by omega))

/-- Joining the returned extent with the free one behind it, if they touch. -/
def absorbNext (zone : Zone) (free : Extents) (e : Extent) : Extents × Extent :=
  if e.stop < zone.stop then
    match Extents.lengthAt? free (UInt32.ofNat e.stop) with
    | some length =>
      (Extents.erase free (UInt32.ofNat e.stop), { e with length := e.length + length })
    | none => (free, e)
  else (free, e)

/-- Taking an extent back joins it first with the neighbour behind it and then with the one
before it. -/
theorem reclaim_eq (zone : Zone) (free : Extents) (e : Extent) :
    reclaim zone free e =
      match Extents.before? (absorbNext zone free e).1 (absorbNext zone free e).2.start with
      | some before =>
        if before.stop = (absorbNext zone free e).2.start.toNat then
          Extents.insert (absorbNext zone free e).1
            ⟨before.start, (absorbNext zone free e).2.length + before.length⟩
        else Extents.insert (absorbNext zone free e).1 (absorbNext zone free e).2
      | none => Extents.insert (absorbNext zone free e).1 (absorbNext zone free e).2 := rfl

/-- Only the places that are covered matter: an extent and a list that cover the same ones can
stand for those given. -/
theorem Returns.of_cover_eq (h : Returns zone free e) (hsorted : others.Sorted)
    (hpos : ∀ x ∈ whole :: others, 0 < x.length.toNat)
    (hcover : ∀ place, Extents.cover (whole :: others) place = Extents.cover (e :: free) place) :
    Returns zone others whole where
  zone_fits := h.zone_fits
  free_sorted := hsorted
  free_pos := hpos
  once place := by
    rw [hcover]
    exact h.once place
  usable place hplace := by
    rw [hcover] at hplace
    exact h.usable place hplace

/-- Joining the neighbour behind leaves an extent that can still be added, and the same places
covered. -/
theorem Returns.absorbNext (h : Returns zone free e) :
    Returns zone (absorbNext zone free e).1 (absorbNext zone free e).2 ∧
      ∀ place, Extents.cover ((Heap.absorbNext zone free e).2 :: (Heap.absorbNext zone free e).1)
        place = Extents.cover (e :: free) place := by
  unfold Heap.absorbNext
  split
  · rename_i hinside
    split
    · rename_i length hlength
      have hfits : zone.stop ≤ 4294967296 := h.zone_fits
      let next : Extent := ⟨UInt32.ofNat e.stop, length⟩
      have htouch : next.start.toNat = e.stop :=
        UInt32.toNat_ofNat_of_lt' (show _ < 4294967296 by omega)
      have hnext : next ∈ free := h.free_sorted.lengthAt?_eq_some_iff.mp hlength
      have hsum := h.toNat_add List.mem_cons_self (List.mem_cons_of_mem _ hnext) htouch
      have hjoin : Extent.Join e next ⟨e.start, e.length + length⟩ := by
        refine ⟨rfl, htouch, ?_⟩
        have hlengths : (e.length + length).toNat = e.length.toNat + length.toNat := hsum
        have hnextstop : next.stop = next.start.toNat + length.toNat := rfl
        have hestop : e.stop = e.start.toNat + e.length.toNat := rfl
        show e.start.toNat + (e.length + length).toNat = next.stop
        omega
      have hcover : ∀ place, Extents.cover (⟨e.start, e.length + length⟩ ::
          Extents.erase free next.start) place = Extents.cover (e :: free) place := fun place => by
        rw [Extents.cover_join hjoin, Extents.cover_cons, Extents.cover_cons e,
          h.free_sorted.cover_erase hnext]
      refine ⟨h.of_cover_eq (h.free_sorted.erase _) ?_ hcover, hcover⟩
      intro x hx
      rcases List.mem_cons.mp hx with rfl | hx'
      · have hlengths : (e.length + length).toNat = e.length.toNat + length.toNat := hsum
        have hpos := h.free_pos e List.mem_cons_self
        show 0 < (e.length + length).toNat
        omega
      · exact h.free_pos x (List.mem_cons_of_mem _ (Extents.mem_erase_iff.mp hx').1)
    · exact ⟨h, fun _ => rfl⟩
  · exact ⟨h, fun _ => rfl⟩

/-- Adding an extent to the free ones keeps them sorted and covers its places in
addition, whatever it is joined with. -/
theorem Returns.reclaim (h : Returns zone free e) :
    (reclaim zone free e).Sorted ∧ (∀ x ∈ reclaim zone free e, 0 < x.length.toNat) ∧
      ∀ place, (Heap.reclaim zone free e).cover place = Extents.cover (e :: free) place := by
  obtain ⟨h', hcover'⟩ := h.absorbNext
  rw [reclaim_eq]
  simp only [← hcover']
  generalize (Heap.absorbNext zone free e).1 = free' at *
  generalize (Heap.absorbNext zone free e).2 = e' at *
  have hinsert : (Extents.insert free' e').Sorted ∧
      (∀ x ∈ Extents.insert free' e', 0 < x.length.toNat) ∧
      ∀ place, (Extents.insert free' e').cover place = Extents.cover (e' :: free') place := by
    refine ⟨h'.free_sorted.insert e', ?_, h'.free_sorted.cover_insert h'.start_ne⟩
    intro x hx
    rcases h'.free_sorted.mem_insert_iff.mp hx with rfl | ⟨hx', -⟩
    · exact h'.free_pos _ List.mem_cons_self
    · exact h'.free_pos _ (List.mem_cons_of_mem _ hx')
  split
  · rename_i before hbefore
    obtain ⟨hmem, -⟩ := Extents.before?_eq_some hbefore
    split
    · rename_i htouch
      have hsum := h'.toNat_add (List.mem_cons_of_mem _ hmem) List.mem_cons_self htouch.symm
      have hlengths : (e'.length + before.length).toNat =
          before.length.toNat + e'.length.toNat := by
        rw [UInt32.add_comm, hsum]
      have hjoin : Extent.Join before e' ⟨before.start, e'.length + before.length⟩ := by
        refine ⟨rfl, htouch.symm, ?_⟩
        have hbeforestop : before.stop = before.start.toNat + before.length.toNat := rfl
        have hestop : e'.stop = e'.start.toNat + e'.length.toNat := rfl
        show before.start.toNat + (e'.length + before.length).toNat = e'.stop
        omega
      refine ⟨h'.free_sorted.insert _, ?_, fun place => ?_⟩
      · intro x hx
        rcases h'.free_sorted.mem_insert_iff.mp hx with rfl | ⟨hx', -⟩
        · have hpos := h'.free_pos e' List.mem_cons_self
          show 0 < (e'.length + before.length).toNat
          omega
        · exact h'.free_pos _ (List.mem_cons_of_mem _ hx')
      · rw [Extents.cover_of_perm (h'.free_sorted.insert_perm _), Extents.cover_join hjoin]
        simp only [Extents.cover_cons, h'.free_sorted.cover_erase hmem]
        omega
    · exact hinsert
  · exact hinsert

end Returns

/-- An address where no live extent starts is ignored. -/
theorem release_of_none {addr : Addr} (hnone : ∀ e ∈ heap.live, e.start ≠ addr) :
    heap.release addr = heap := by
  rcases heap with ⟨zone, bytes, free, live⟩
  have hlength : Extents.lengthAt? live addr = none := Extents.lengthAt?_eq_none_iff.mpr hnone
  simp only [release, hlength]

/-- A live extent is taken off the live ones and added to the free ones. -/
theorem release_of_mem (hsorted : heap.live.Sorted) {e : Extent} (he : e ∈ heap.live) :
    heap.release e.start =
      ⟨heap.zone, heap.bytes, reclaim heap.zone heap.free e, heap.live.erase e.start⟩ := by
  rcases heap with ⟨zone, bytes, free, live⟩
  have hlength : Extents.lengthAt? live e.start = some e.length :=
    Extents.Sorted.lengthAt?_eq_some_iff hsorted |>.mpr he
  simp only [release, hlength]

/-- Counting a live extent with the free ones instead covers the same places. -/
theorem Tiled.cover_returned (h : heap.Tiled) {e : Extent} (he : e ∈ heap.live) (place : Nat) :
    Extents.cover (e :: heap.free) place + Extents.cover (heap.live.erase e.start) place =
      if Usable heap.zone place then 1 else 0 := by
  have hplace := h.cover_eq place
  rw [h.live_sorted.cover_erase he] at hplace
  simp only [Extents.cover_cons] at hplace ⊢
  exact Eq.trans (by omega) hplace

/-- A live extent can be added to the free ones. -/
theorem Tiled.returns (h : heap.Tiled) {e : Extent} (he : e ∈ heap.live) :
    Returns heap.zone heap.free e where
  zone_fits := h.zone_fits
  free_sorted := h.free_sorted
  free_pos x hx := by
    rcases List.mem_cons.mp hx with rfl | hx'
    · exact h.live_pos _ he
    · exact h.free_pos x hx'
  once place := by
    have hplace := h.cover_returned he place
    split at hplace <;> omega
  usable place hpos := by
    have hplace := h.cover_returned he place
    by_contra hout
    rw [if_neg hout] at hplace
    omega

/-- Taking back keeps the tiling, whatever address is given. -/
theorem Tiled.release (h : heap.Tiled) (addr : Addr) : (heap.release addr).Tiled := by
  by_cases hlive : ∃ e ∈ heap.live, e.start = addr
  · obtain ⟨e, he, rfl⟩ := hlive
    obtain ⟨hsorted, hpos, hreclaim⟩ := (h.returns he).reclaim
    rw [release_of_mem h.live_sorted he]
    refine ⟨h.zone_fits, hsorted, h.live_sorted.erase e.start, hpos, ?_, fun place => ?_⟩
    · intro x hx
      exact h.live_pos x (Extents.mem_erase_iff.mp hx).1
    · dsimp only
      rw [hreclaim]
      exact h.cover_returned he place
  · push Not at hlive
    rw [release_of_none hlive]
    exact h

end Heap

end RegionGuard
