import RegionGuard.Proofs.Table.Travel

/-!
# Offsets that wrap

An offset is added in wrapping arithmetic, and what counts is where the sum lands.
Seen as a number of any size, the sum can be off from there by one turn around the
address space.  An offset covers at most half a turn, so such a sum lands in the
region of its address only if the region is longer than the other half: an
overrun past the end of the address space, or an underrun below its start, comes back
into the region at its opposite side.

In regions of less than half the address space the numbers are exact, and an
underrun is rejected like an overrun.  Longer regions can be registered as well, and
in each of them some underrun is accepted.  At exactly half the address space,
arithmetic can come back to the end of the region, while an access finds no byte there.
-/

namespace RegionGuard

/-- The `count` bytes from a place on lie in the region, where the place is a number
of any size.  No byte is needed at its end. -/
def Bounds.HasBytes (b : Bounds) (place : Int) (count : Nat) : Prop :=
  (b.start.toNat : Int) ≤ place ∧ place + count ≤ b.start.toNat + b.size.toNat

instance (b : Bounds) (place : Int) (count : Nat) : Decidable (b.HasBytes place count) :=
  inferInstanceAs (Decidable (_ ∧ _))

/-- An address of the space that is the same as a number in the region is that number. -/
theorem Bounds.Fits.emod_of_hasBytes {b : Bounds} (h : b.Fits) {place : Int} {count : Nat}
    (hplace : b.HasBytes place count) : place % addressCount = place := by
  have hfits : b.start.toNat + b.size.toNat < 4294967296 := h
  obtain ⟨hfrom, hto⟩ := hplace
  show place % 4294967296 = place
  omega

/-- What lands in a region of at most half the address space has not wrapped, but for a
landing at the end of a region of exactly this size. -/
theorem Bounds.Spans.eq_add {b : Bounds} {addr target : Addr} {offset : Int32} {count : Nat}
    (hspans : b.Spans addr) (hin : b.HasBytes target.toNat count)
    (hplace : (target.toNat : Int) = (addr.toNat + offset.toInt) % addressCount)
    (hsize : b.size.toNat ≤ 2 ^ 31) (hcount : b.size.toNat < 2 ^ 31 + count) :
    (target.toNat : Int) = addr.toNat + offset.toInt := by
  have hlow := offset.le_toInt
  have hhigh := offset.toInt_lt
  have hplace' : (target.toNat : Int) = (addr.toNat + offset.toInt) % 4294967296 := hplace
  obtain ⟨hfrom, hto⟩ := hspans
  obtain ⟨hbegin, hend⟩ := hin
  omega

/-- Where offsets do not wrap, only the sum as a number counts. -/
theorem Bounds.Spans.exact_iff {b : Bounds} {addr target : Addr} {offset : Int32} {count : Nat}
    (hspans : b.Spans addr) (hfits : b.Fits) (hsize : b.size.toNat ≤ 2 ^ 31)
    (hcount : b.size.toNat < 2 ^ 31 + count) :
    ((target.toNat : Int) = (addr.toNat + offset.toInt) % addressCount ∧
        b.HasBytes target.toNat count) ↔
      (target.toNat : Int) = addr.toNat + offset.toInt ∧
        b.HasBytes (addr.toNat + offset.toInt) count := by
  constructor
  · intro hlands
    obtain ⟨hplace, hin⟩ := hlands
    have hexact := hspans.eq_add hin hplace hsize hcount
    rw [← hexact]
    exact ⟨rfl, hin⟩
  · intro hsum
    obtain ⟨hexact, hin⟩ := hsum
    rw [hfits.emod_of_hasBytes hin]
    rw [← hexact] at hin
    exact ⟨hexact, hin⟩

/-- From the lower part of a long region an underrun of half a turn lands in its upper
part. -/
theorem Bounds.Fits.exists_underrun {b : Bounds} (hfits : b.Fits) {skip : Nat}
    (hskip : skip + 2 ^ 31 ≤ b.size.toNat) :
    ∃ addr target : Addr, b.Spans addr ∧ target.toNat = b.start.toNat + skip + 2 ^ 31 ∧
      (target.toNat : Int) = (addr.toNat + Int32.minValue.toInt) % addressCount ∧
      (addr.toNat : Int) + Int32.minValue.toInt < b.start.toNat := by
  have hfits' : b.start.toNat + b.size.toNat < 4294967296 := hfits
  have hoffset : Int32.minValue.toInt = -2 ^ 31 := Int32.toInt_minValue
  have haddr : (UInt32.ofNat (b.start.toNat + skip)).toNat = b.start.toNat + skip :=
    UInt32.toNat_ofNat_of_lt' (show _ < 4294967296 by omega)
  have htarget : (UInt32.ofNat (b.start.toNat + skip + 2 ^ 31)).toNat =
      b.start.toNat + skip + 2 ^ 31 := UInt32.toNat_ofNat_of_lt' (show _ < 4294967296 by omega)
  refine ⟨UInt32.ofNat (b.start.toNat + skip), UInt32.ofNat (b.start.toNat + skip + 2 ^ 31), ?_,
    htarget, ?_, ?_⟩
  · rw [Bounds.Spans, haddr]
    omega
  · rw [htarget, haddr, hoffset]
    show _ = (_ : Int) % 4294967296
    omega
  · rw [haddr, hoffset]
    omega

namespace Table

/-- Some arithmetic in the region has a valid result although the sum, as a number, is
outside. -/
def AdvanceWraps (t : Table) (b : Bounds) : Prop :=
  ∃ addr, b.Spans addr ∧ ∃ offset policy target,
    (t.advance (.valid addr) offset policy).1 = .valid target ∧
      ¬ b.HasBytes (addr.toNat + offset.toInt) 0

/-- Some access in the region is accepted although its bytes, as numbers, are outside. -/
def LocateWraps (t : Table) (b : Bounds) : Prop :=
  ∃ addr, b.Spans addr ∧ ∃ offset width policy target,
    (t.locate (.valid addr) offset width policy).1 = .ok target ∧
      ¬ b.HasBytes (addr.toNat + offset.toInt) width.bytes.toNat

/-- Where the offsets lead that are accepted in a region. -/
structure Lands (t : Table) (b : Bounds) : Prop where
  /-- In a region of less than half the address space arithmetic is exact. -/
  advance_iff : b.size.toNat < 2 ^ 31 → ∀ addr, b.Spans addr → ∀ offset policy target,
    (t.advance (.valid addr) offset policy).1 = .valid target ↔
      (target.toNat : Int) = addr.toNat + offset.toInt ∧
        b.HasBytes (addr.toNat + offset.toInt) 0 ∧ target ≠ invalidAddr
  /-- In a region of at most half the address space accesses are. -/
  locate_iff : b.size.toNat ≤ 2 ^ 31 → ∀ addr, b.Spans addr → ∀ offset width policy target,
    (t.locate (.valid addr) offset width policy).1 = .ok target ↔
      (target.toNat : Int) = addr.toNat + offset.toInt ∧
        b.HasBytes (addr.toNat + offset.toInt) width.bytes.toNat
  /-- In every longer region some arithmetic wraps, and in one of half the address space
  as well unless it ends at the reserved address. -/
  advanceWraps_iff : t.AdvanceWraps b ↔
    2 ^ 31 < b.size.toNat ∨ b.size.toNat = 2 ^ 31 ∧ b.stop ≠ invalidAddr
  /-- In every longer region some access wraps, too. -/
  locateWraps_iff : t.LocateWraps b ↔ 2 ^ 31 < b.size.toNat

variable {t : Table} {zones : List Zone} {live : Set Bounds} {b : Bounds} {addr target : Addr}
  {offset : Int32} {policy : UntrackedPolicy}

/-! ## Where offsets land -/

/-- A valid result is an address of the region, the reserved one excepted. -/
theorem Tracks.advance_eq_valid_iff (h : t.Tracks zones live) (hb : b ∈ live)
    (hspans : b.Spans addr) :
    (t.advance (.valid addr) offset policy).1 = .valid target ↔
      (target.toNat : Int) = (addr.toNat + offset.toInt) % addressCount ∧
        b.HasBytes target.toNat 0 ∧ target ≠ invalidAddr := by
  have hin : b.Spans target ↔ b.HasBytes target.toNat 0 := by
    unfold Bounds.Spans Bounds.HasBytes
    omega
  rw [h.advance_of_spans hb hspans, ← add_offset_eq_iff, ← hin]
  constructor
  · intro hvalid
    by_cases hstop : b.Spans (addr + offset.toUInt32)
    · rw [if_pos hstop, Pointer.ofAddr] at hvalid
      split at hvalid
      · cases hvalid
      · rename_i hne
        obtain rfl := Pointer.valid.inj hvalid
        exact ⟨rfl, hstop, hne⟩
    · rw [if_neg hstop] at hvalid
      cases hvalid
  · rintro ⟨rfl, hstop, hne⟩
    rw [if_pos hstop, Pointer.ofAddr, if_neg hne]

/-- An access from inside a live region succeeds exactly if the wrapped sum is an address of the
region that leaves room for the bytes. -/
theorem Tracks.locate_eq_ok_iff_of_spans (h : t.Tracks zones live) (hb : b ∈ live)
    (hspans : b.Spans addr) {width : Width} :
    (t.locate (.valid addr) offset width policy).1 = .ok target ↔
      (target.toNat : Int) = (addr.toNat + offset.toInt) % addressCount ∧
        b.HasBytes target.toNat width.bytes.toNat := by
  rw [h.locate_eq_ok_iff, add_offset_eq_iff, h.accepts_iff_of_spans hb hspans, Bounds.HasBytes]
  refine and_congr_right fun _ => ?_
  omega

/-! ## Regions in which offsets wrap -/

/-- In a region of half the address space or more, a move by the least offset goes around and is
valid, unless it ends at the address that stands for the invalid pointer. -/
theorem Tracks.advanceWraps (h : t.Tracks zones live) (hb : b ∈ live) (skip : Nat)
    (hskip : skip + 2 ^ 31 ≤ b.size.toNat)
    (hne : b.start.toNat + skip + 2 ^ 31 ≠ invalidAddr.toNat) : t.AdvanceWraps b := by
  obtain ⟨addr, target, hspans, htarget, hplace, hunder⟩ :=
    (h.separate.fits b hb).exists_underrun hskip
  refine ⟨addr, hspans, Int32.minValue, .permit, target, ?_, fun hin => ?_⟩
  · rw [h.advance_eq_valid_iff hb hspans]
    refine ⟨hplace, ?_, ?_⟩
    · unfold Bounds.HasBytes
      omega
    · rintro rfl
      exact hne htarget.symm
  · exact absurd hin.1 (Int.not_le.mpr hunder)

/-- If a byte is left where it ends, an access is let through there as well. -/
theorem Tracks.locateWraps (h : t.Tracks zones live) (hb : b ∈ live)
    (hsize : 2 ^ 31 < b.size.toNat) : t.LocateWraps b := by
  obtain ⟨addr, target, hspans, htarget, hplace, hunder⟩ :=
    Bounds.Fits.exists_underrun (h.separate.fits b hb) (show 0 + 2 ^ 31 ≤ b.size.toNat by omega)
  refine ⟨addr, hspans, Int32.minValue, .byte, .permit, target, ?_, fun hin => ?_⟩
  · rw [h.locate_eq_ok_iff_of_spans hb hspans]
    refine ⟨hplace, ?_⟩
    show (_ : Int) ≤ _ ∧ (_ : Int) + (1 : Nat) ≤ _
    omega
  · exact absurd hin.1 (Int.not_le.mpr hunder)

/-- Moves go around in just these regions, as a shorter one has no room for the least offset. -/
theorem Tracks.advanceWraps_iff (h : t.Tracks zones live) (hb : b ∈ live) :
    t.AdvanceWraps b ↔
      2 ^ 31 < b.size.toNat ∨ b.size.toNat = 2 ^ 31 ∧ b.stop ≠ invalidAddr := by
  have hstop := (h.separate.fits b hb).toNat_stop
  constructor
  · intro hwraps
    obtain ⟨addr, hspans, offset, policy, target, hvalid, hout⟩ := hwraps
    obtain ⟨hplace, hin, hne⟩ := (h.advance_eq_valid_iff hb hspans).mp hvalid
    by_contra hsize
    rw [not_or, not_and, not_not] at hsize
    obtain ⟨hle, hend⟩ := hsize
    have hexact : (target.toNat : Int) = addr.toNat + offset.toInt := by
      rcases Nat.lt_or_eq_of_le (Nat.le_of_not_lt hle) with hlt | heq
      · exact hspans.eq_add hin hplace (Nat.le_of_lt hlt) (by omega)
      · -- the end of the region is the reserved address, so the result is before it
        have hbefore : target.toNat ≠ b.stop.toNat := by
          rw [hend heq]
          exact fun hsame => hne (UInt32.toNat_inj.mp hsame)
        have hbyte : b.HasBytes target.toNat 1 := by
          unfold Bounds.HasBytes at hin ⊢
          omega
        exact hspans.eq_add hbyte hplace (Nat.le_of_eq heq) (by omega)
    rw [hexact] at hin
    exact hout hin
  · rintro (hlong | ⟨hhalf, hend⟩)
    · by_cases hreserved : b.start.toNat + 0 + 2 ^ 31 = invalidAddr.toNat
      · exact h.advanceWraps hb 1 (by omega) (by omega)
      · exact h.advanceWraps hb 0 (by omega) hreserved
    · refine h.advanceWraps hb 0 (by omega) fun hsame => hend ?_
      exact UInt32.toNat_inj.mp (by omega)

/-- So do accesses, where the invalid pointer is no exception. -/
theorem Tracks.locateWraps_iff (h : t.Tracks zones live) (hb : b ∈ live) :
    t.LocateWraps b ↔ 2 ^ 31 < b.size.toNat := by
  constructor
  · intro hwraps
    obtain ⟨addr, hspans, offset, width, policy, target, hok, hout⟩ := hwraps
    obtain ⟨hplace, hin⟩ := (h.locate_eq_ok_iff_of_spans hb hspans).mp hok
    have hwidth := width.bytes_pos
    by_contra hsize
    rw [hspans.eq_add hin hplace (by omega) (by omega)] at hin
    exact hout hin
  · exact h.locateWraps hb

/-- Pointers and accesses land where exact integers lead, unless the region is that large. -/
theorem Tracks.lands (h : t.Tracks zones live) (hb : b ∈ live) : t.Lands b where
  advance_iff hsize addr hspans offset policy target := by
    rw [h.advance_eq_valid_iff hb hspans, ← and_assoc,
      hspans.exact_iff (h.separate.fits b hb) (Nat.le_of_lt hsize) hsize, and_assoc]
  locate_iff hsize addr hspans offset width policy target := by
    have hwidth := width.bytes_pos
    rw [h.locate_eq_ok_iff_of_spans hb hspans,
      hspans.exact_iff (h.separate.fits b hb) hsize (by omega)]
  advanceWraps_iff := h.advanceWraps_iff hb
  locateWraps_iff := h.locateWraps_iff hb

/-- Wherever fair use takes a table, offsets wrap back exactly into the live regions that
are longer than half the address space, and to the end of those of this size. -/
theorem lands_of_reached (h : Reached zones t live) (hb : b ∈ live) : t.Lands b :=
  h.tracks.lands hb

/-- A word before the end of a small region, and one step below its start. -/
theorem lands_of_reached_small :
    ∃ t, Reached [] t {⟨0x1000, 16⟩} ∧
      (t.locate (.valid 0x1010) (-4) .word .forbid).1 = .ok 0x100c ∧
      (∀ target, (t.advance (.valid 0x1010) (-17) .forbid).1 ≠ .valid target) ∧
      ¬ t.AdvanceWraps ⟨0x1000, 16⟩ := by
  obtain ⟨t, ht⟩ := @exists_reached_single [] 0x1000 16 (by decide) (by decide)
  have hlands := lands_of_reached ht (Set.mem_singleton _)
  refine ⟨t, ht, ?_, fun target hvalid => ?_, ?_⟩
  · rw [hlands.locate_iff (by decide) _ (by decide)]
    exact ⟨by decide, by decide⟩
  · rw [hlands.advance_iff (by decide) _ (by decide)] at hvalid
    exact absurd hvalid.2.1 (by decide)
  · rw [hlands.advanceWraps_iff]
    decide

/-- In the region from address 1 on that has one byte more than half the address space,
an underrun below its start has a valid result and can be accessed there. -/
theorem advance_of_reached_long :
    ∃ t, Reached [] t {⟨1, 0x80000001⟩} ∧
      (t.advance (.valid 1) Int32.minValue .forbid).1 = .valid 0x80000001 ∧
      (t.locate (.valid 1) Int32.minValue .byte .forbid).1 = .ok 0x80000001 ∧
      (1 : Int) + Int32.minValue.toInt < 1 := by
  obtain ⟨t, ht⟩ := @exists_reached_single [] 1 0x80000001 (by decide) (by decide)
  have hmem := Set.mem_singleton (⟨1, 0x80000001⟩ : Bounds)
  refine ⟨t, ht, ?_, ?_, by decide⟩
  · rw [ht.tracks.advance_eq_valid_iff hmem (by decide)]
    decide
  · rw [ht.tracks.locate_eq_ok_iff_of_spans hmem (by decide)]
    decide

end Table

end RegionGuard
