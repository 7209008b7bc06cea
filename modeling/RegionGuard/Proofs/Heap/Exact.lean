import RegionGuard.Proofs.Heap.Gaps

/-!
# Arithmetic that does not wrap

The heap computes starts and lengths with numbers of 32 bits.  Here it is written once
more with sums and differences that have no value when they leave that range.  On a tiled
heap the two do the same for all arguments: what is added up are lengths of neighbours in
one zone, and what is taken away is the front of a longer extent.
-/

namespace RegionGuard

/-- The sum, unless it wraps. -/
def sum? (a b : UInt32) : Option UInt32 :=
  if a.toNat + b.toNat < addressCount then some (a + b) else none

/-- The difference, unless it wraps. -/
def difference? (a b : UInt32) : Option UInt32 :=
  if b ≤ a then some (a - b) else none

/-- A sum that does not wrap is the exact one. -/
theorem sum?_eq {a b : UInt32} (h : (a + b).toNat = a.toNat + b.toNat) :
    sum? a b = some (a + b) := by
  have hlt := (a + b).toNat_lt
  rw [h] at hlt
  exact if_pos hlt

theorem difference?_eq {a b : UInt32} (h : b ≤ a) : difference? a b = some (a - b) :=
  if_pos h

namespace Heap

/-- `allocate`, unless a sum or a difference wraps. -/
def allocateExact? (heap : Heap) (size : UInt32) : Option (Option Addr × Heap) :=
  match needed? size with
  | none => some (none, heap)
  | some needed =>
    match heap.free.find? (needed ≤ ·.length) with
    | none => some (none, heap)
    | some found => do
      let free := heap.free.erase found.start
      let free ←
        if needed < found.length then do
          let start ← sum? found.start needed
          let length ← difference? found.length needed
          some (free.insert ⟨start, length⟩)
        else some free
      let live := heap.live.insert ⟨found.start, needed⟩
      some (some found.start, ⟨heap.zone, heap.bytes, free, live⟩)

/-- `absorbNext`, unless a sum wraps. -/
def absorbNextExact? (zone : Zone) (free : Extents) (e : Extent) : Option (Extents × Extent) :=
  if e.stop < zone.stop then
    match free.lengthAt? (UInt32.ofNat e.stop) with
    | some length => do
      let joined ← sum? e.length length
      some (free.erase (UInt32.ofNat e.stop), ⟨e.start, joined⟩)
    | none => some (free, e)
  else some (free, e)

/-- `reclaim`, unless a sum wraps. -/
def reclaimExact? (zone : Zone) (free : Extents) (e : Extent) : Option Extents := do
  let (free, e) ← absorbNextExact? zone free e
  match free.before? e.start with
  | some before =>
    if before.stop = e.start.toNat then do
      let joined ← sum? e.length before.length
      some (free.insert ⟨before.start, joined⟩)
    else some (free.insert e)
  | none => some (free.insert e)

/-- `release`, unless a sum wraps. -/
def releaseExact? (heap : Heap) (addr : Addr) : Option Heap :=
  match heap.live.lengthAt? addr with
  | none => some heap
  | some length => do
    let free ← reclaimExact? heap.zone heap.free ⟨addr, length⟩
    some ⟨heap.zone, heap.bytes, free, heap.live.erase addr⟩

/-- Nothing wraps, whatever is allocated or released next. -/
structure Exact (heap : Heap) : Prop where
  allocate : ∀ size, heap.allocateExact? size = some (heap.allocate size)
  release : ∀ addr, heap.releaseExact? addr = some (heap.release addr)

variable {heap : Heap} {zone : Zone} {free : Extents} {e : Extent}

/-- An allocation computes with exact numbers: what is cut off a free extent is no longer than
the extent, and its end lies within the zone. -/
theorem Tiled.allocateExact?_eq (h : heap.Tiled) (size : UInt32) :
    heap.allocateExact? size = some (heap.allocate size) := by
  unfold allocateExact? Heap.allocate
  cases needed? size with
  | none => rfl
  | some needed =>
      cases hfound : heap.free.find? (needed ≤ ·.length) with
      | none => simp only [hfound]
      | some found =>
          have hmem := List.mem_of_find?_eq_some hfound
          simp only [hfound]
          by_cases hshorter : needed < found.length
          · have hstart := sum?_eq (h.join_rest hmem hshorter).touch
            have hlength := difference?_eq (UInt32.le_of_lt hshorter)
            simp only [if_pos hshorter, hstart, hlength]
            rfl
          · simp only [if_neg hshorter]
            rfl

/-- Joining the neighbour behind adds lengths that the zone has room for. -/
theorem Returns.absorbNextExact?_eq (h : Returns zone free e) :
    absorbNextExact? zone free e = some (Heap.absorbNext zone free e) := by
  have hfits : zone.stop ≤ 4294967296 := h.zone_fits
  unfold absorbNextExact? Heap.absorbNext
  by_cases hinside : e.stop < zone.stop
  · simp only [if_pos hinside]
    cases hlength : Extents.lengthAt? free (UInt32.ofNat e.stop) with
    | none => rfl
    | some length =>
        have hnext : (UInt32.ofNat e.stop).toNat = e.stop :=
          UInt32.toNat_ofNat_of_lt' (show _ < 4294967296 by omega)
        have hmem := h.free_sorted.lengthAt?_eq_some_iff.mp hlength
        have hsum := h.toNat_add List.mem_cons_self (List.mem_cons_of_mem _ hmem) hnext
        simp only [sum?_eq hsum]
        rfl
  · simp only [if_neg hinside]

/-- So does joining the one before. -/
theorem Returns.reclaimExact?_eq (h : Returns zone free e) :
    reclaimExact? zone free e = some (Heap.reclaim zone free e) := by
  have h' := h.absorbNext.1
  rw [reclaim_eq, reclaimExact?, h.absorbNextExact?_eq]
  generalize Heap.absorbNext zone free e = absorbed at *
  obtain ⟨free', e'⟩ := absorbed
  simp only [Option.bind_eq_bind, Option.bind_some]
  cases hbefore : Extents.before? free' e'.start with
  | none => rfl
  | some before =>
      obtain ⟨hmem, -⟩ := Extents.before?_eq_some hbefore
      by_cases htouch : before.stop = e'.start.toNat
      · have hsum := h'.toNat_add (List.mem_cons_of_mem _ hmem) List.mem_cons_self htouch.symm
        rw [UInt32.add_comm, Nat.add_comm] at hsum
        simp only [if_pos htouch, sum?_eq hsum]
        rfl
      · simp only [if_neg htouch]

/-- Hence taking back an extent computes with exact numbers, for any address. -/
theorem Tiled.releaseExact?_eq (h : heap.Tiled) (addr : Addr) :
    heap.releaseExact? addr = some (heap.release addr) := by
  unfold releaseExact? Heap.release
  cases hlength : heap.live.lengthAt? addr with
  | none => simp only [hlength]
  | some length =>
      have hmem := h.live_sorted.lengthAt?_eq_some_iff.mp hlength
      simp only [hlength, (h.returns hmem).reclaimExact?_eq]
      rfl

/-- No addition or subtraction of a tiled heap wraps around. -/
theorem Tiled.exact (h : heap.Tiled) : heap.Exact :=
  ⟨h.allocateExact?_eq, h.releaseExact?_eq⟩

end Heap

end RegionGuard
