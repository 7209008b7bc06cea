import RegionGuard.Proofs.Table.Live

/-!
# What a bounds check accepts

A check computes with wrapping distances from the start of the bounds.  Seen as
numbers, it moves the address by the offset modulo the size of the address space
and asks whether the bytes accessed there lie in the region of the address the
pointer had before, not of the address reached.
-/

namespace RegionGuard

/-- Moving an address by a signed offset, as numbers. -/
theorem toNat_add_offset (addr : Addr) (offset : Int32) :
    ((addr + offset.toUInt32).toNat : Int) = (addr.toNat + offset.toInt) % addressCount := by
  have haddr : addr.toNat < 4294967296 := addr.toNat_lt
  have hoffset : offset.toUInt32.toNat < 4294967296 := offset.toUInt32.toNat_lt
  have hsigned : (offset.toUInt32.toNat : Int) = offset.toInt % 4294967296 := by
    rw [Int32.toInt, BitVec.toInt_eq_toNat_bmod]
    show _ = Int.bmod offset.toUInt32.toNat 4294967296 % ((4294967296 : Nat) : Int)
    rw [Int.bmod_emod]
    omega
  rw [UInt32.toNat_add]
  show ((addr.toNat + offset.toUInt32.toNat) % 4294967296 : Nat) = (_ : Int) % 4294967296
  omega

theorem Width.bytes_pos (width : Width) : 0 < width.bytes.toNat := by
  cases width <;> decide

namespace Bounds

/-- Whether the access of a check would be rejected, as the check computes it. -/
theorem Fits.check_iff {b : Bounds} (h : b.Fits) (addr : Addr) (delta : UInt32) (width : Width) :
    ¬ b.size.toNat < (b.distance addr + delta).toNat + width.bytes.toNat ↔
      b.start.toNat ≤ (addr + delta).toNat ∧
        (addr + delta).toNat + width.bytes.toNat ≤ b.start.toNat + b.size.toNat := by
  have hfits : b.start.toNat + b.size.toNat < 4294967296 := h
  have hstart : b.start.toNat < 4294967296 := b.start.toNat_lt
  have haddr : addr.toNat < 4294967296 := addr.toNat_lt
  have hdelta : delta.toNat < 4294967296 := delta.toNat_lt
  have hdistance : (b.distance addr).toNat =
      (4294967296 - b.start.toNat + addr.toNat) % 4294967296 := UInt32.toNat_sub addr b.start
  have hfirst : (b.distance addr + delta).toNat =
      ((b.distance addr).toNat + delta.toNat) % 4294967296 := UInt32.toNat_add _ _
  have htarget : (addr + delta).toNat = (addr.toNat + delta.toNat) % 4294967296 :=
    UInt32.toNat_add _ _
  rw [hfirst, hdistance, htarget]
  omega

theorem fits_untracked : untracked.Fits := by decide

end Bounds

namespace Table

variable {t : Table} {zones : List Zone} {live : Set Bounds}

/-- The `width` bytes from `target` on may be accessed by way of the address
`addr`: they lie in the live region of that address, or there is no such region,
its block is untracked, the policy permits that, and they end before the last
address. -/
def Accepts (t : Table) (live : Set Bounds) (policy : UntrackedPolicy) (addr : Addr)
    (width : Width) (target : Addr) : Prop :=
  (∃ b ∈ live, b.Spans addr ∧ b.start.toNat ≤ target.toNat ∧
    target.toNat + width.bytes.toNat ≤ b.start.toNat + b.size.toNat) ∨
  ((∀ b ∈ live, ¬ b.Spans addr) ∧ (t.entry (Slot.ofAddr addr)).fallback = Bounds.untracked ∧
    policy = .permit ∧ target.toNat + width.bytes.toNat ≤ addressCount - 1)

/-- Whether a check with the given bounds rejects the access. -/
def Rejects (bounds : Bounds) (addr : Addr) (delta : UInt32) (width : Width) : Prop :=
  bounds.size.toNat < (bounds.distance addr + delta).toNat + width.bytes.toNat

instance (bounds : Bounds) (addr : Addr) (delta : UInt32) (width : Width) :
    Decidable (Rejects bounds addr delta width) :=
  inferInstanceAs (Decidable (_ < _))

/-- The check of an access through a valid pointer: the bounds of the pointer have to accept the
address reached from it. -/
theorem locate_valid (t : Table) (addr : Addr) (offset : Int32) (width : Width)
    (policy : UntrackedPolicy) :
    (t.locate (.valid addr) offset width policy).1 =
      if Rejects (t.boundsUnder addr policy).1 addr offset.toUInt32 width then
        .error (.invalidAccess addr offset width.bytes)
      else .ok (addr + offset.toUInt32) := by
  unfold locate
  dsimp only
  split
  · rename_i hrejects
    rw [if_pos (show Rejects _ _ _ _ from hrejects)]
  · rename_i haccepts
    rw [if_neg (show ¬ Rejects _ _ _ _ from haccepts)]

/-- The strict policy turns untracked memory into forbidden memory. -/
theorem fst_boundsUnder (t : Table) (addr : Addr) (policy : UntrackedPolicy) :
    (t.boundsUnder addr policy).1 =
      if (t.lookup addr).1 = Bounds.untracked ∧ policy = .forbid then Bounds.forbidden
      else (t.lookup addr).1 := by
  unfold boundsUnder
  dsimp only
  split <;> rfl

/-- A pointer into a live region has the bounds of this region under either policy. -/
theorem Tracks.boundsUnder_of_spans (h : t.Tracks zones live) {b : Bounds} (hb : b ∈ live)
    {addr : Addr} (hspans : b.Spans addr) (policy : UntrackedPolicy) :
    (t.boundsUnder addr policy).1 = b := by
  have huntracked : ¬ (b = Bounds.untracked ∧ policy = .forbid) := by
    rintro ⟨rfl, -⟩
    exact h.separate.start_ne _ hb rfl
  rw [fst_boundsUnder, h.lookup_of_spans hb hspans, if_neg huntracked]

/-- Any other pointer has the whole address space or nothing, as the mark of its block and the
policy say. -/
theorem Tracks.boundsUnder_of_none (h : t.Tracks zones live) {addr : Addr}
    (hno : ∀ b ∈ live, ¬ b.Spans addr) (policy : UntrackedPolicy) :
    (t.boundsUnder addr policy).1 =
      if (t.entry (Slot.ofAddr addr)).fallback = Bounds.untracked ∧ policy = .permit then
        Bounds.untracked
      else Bounds.forbidden := by
  rw [fst_boundsUnder, h.lookup_of_none hno, sentinelOf]
  simp only [h.fallback_eq_untracked_iff]
  by_cases hreserved : Reserved zones (Slot.ofAddr addr)
  · simp [hreserved]
  · cases policy <;> simp [hreserved]

/-- A check rejects exactly what is not accepted. -/
theorem Tracks.rejects_iff (h : t.Tracks zones live) (policy : UntrackedPolicy) (addr : Addr)
    (delta : UInt32) (width : Width) :
    Rejects (t.boundsUnder addr policy).1 addr delta width ↔
      ¬ t.Accepts live policy addr width (addr + delta) := by
  by_cases hspans : ∃ b ∈ live, b.Spans addr
  · obtain ⟨b, hb, hspans⟩ := hspans
    have hcheck := (h.separate.fits b hb).check_iff addr delta width
    rw [h.boundsUnder_of_spans hb hspans, Rejects, ← not_iff_not, not_not, hcheck]
    constructor
    · intro ⟨hfrom, hto⟩
      exact .inl ⟨b, hb, hspans, hfrom, hto⟩
    · rintro (⟨r, hr, hspans', hfrom, hto⟩ | ⟨hno, -⟩)
      · obtain rfl := h.separate.eq_of_spans hr hb hspans' hspans
        exact ⟨hfrom, hto⟩
      · exact absurd hspans (hno b hb)
  · push Not at hspans
    have hwidth := width.bytes_pos
    rw [h.boundsUnder_of_none hspans]
    by_cases hopen : (t.entry (Slot.ofAddr addr)).fallback = Bounds.untracked ∧ policy = .permit
    · have hcheck := Bounds.fits_untracked.check_iff addr delta width
      rw [if_pos hopen, Rejects, ← not_iff_not, not_not, hcheck]
      constructor
      · rintro ⟨-, hto⟩
        refine .inr ⟨hspans, hopen.1, hopen.2, ?_⟩
        have hto' : (addr + delta).toNat + width.bytes.toNat ≤ 0 + 4294967295 := hto
        show _ ≤ 4294967296 - 1
        omega
      · rintro (⟨r, hr, hspans', -⟩ | ⟨-, -, -, hto⟩)
        · exact absurd hspans' (hspans r hr)
        · refine ⟨Nat.zero_le _, ?_⟩
          have hto' : (addr + delta).toNat + width.bytes.toNat ≤ 4294967296 - 1 := hto
          show _ ≤ 0 + 4294967295
          omega
    · rw [if_neg hopen]
      constructor
      · rintro - (⟨r, hr, hspans', -⟩ | ⟨-, huntracked, hpolicy, -⟩)
        · exact absurd hspans' (hspans r hr)
        · exact hopen ⟨huntracked, hpolicy⟩
      · intro _
        show 0 < _
        omega

/-- An access is let through to the address that is reached, if that is acceptable, and never to
another one. -/
theorem Tracks.locate_eq_ok_iff (h : t.Tracks zones live) {addr target : Addr} {offset : Int32}
    {width : Width} {policy : UntrackedPolicy} :
    (t.locate (.valid addr) offset width policy).1 = .ok target ↔
      addr + offset.toUInt32 = target ∧ t.Accepts live policy addr width target := by
  rw [locate_valid]
  by_cases hrejects : Rejects (t.boundsUnder addr policy).1 addr offset.toUInt32 width
  · rw [if_pos hrejects]
    rw [h.rejects_iff] at hrejects
    constructor
    · intro herror
      cases herror
    · rintro ⟨rfl, haccepts⟩
      exact absurd haccepts hrejects
  · rw [if_neg hrejects]
    rw [h.rejects_iff, not_not] at hrejects
    constructor
    · intro hok
      obtain rfl := Except.ok.inj hok
      exact ⟨rfl, hrejects⟩
    · rintro ⟨rfl, -⟩
      rfl

/-- The address that is reached is the exact sum modulo the size of the address space. -/
theorem add_offset_eq_iff {addr target : Addr} {offset : Int32} :
    addr + offset.toUInt32 = target ↔
      (target.toNat : Int) = (addr.toNat + offset.toInt) % addressCount := by
  rw [← toNat_add_offset, ← UInt32.toNat_inj]
  omega

/-- Under fair use a check accepts an access by way of the address of a pointer
if and only if the bytes it reaches lie where the pointer may go; otherwise it
reports the address, the offset and the width.  Either way the same regions are
live. -/
theorem locate_of_reached (h : Reached zones t live) (offset : Int32) (width : Width)
    (policy : UntrackedPolicy) :
    (∀ addr target, (t.locate (.valid addr) offset width policy).1 = .ok target ↔
      (target.toNat : Int) = (addr.toNat + offset.toInt) % addressCount ∧
        t.Accepts live policy addr width target) ∧
    (∀ addr, (∀ target : Addr, (target.toNat : Int) = (addr.toNat + offset.toInt) % addressCount →
        ¬ t.Accepts live policy addr width target) →
      (t.locate (.valid addr) offset width policy).1 =
        .error (.invalidAccess addr offset width.bytes)) ∧
    (t.locate .invalid offset width policy).1 =
      .error (.invalidAccess invalidAddr offset width.bytes) ∧
    ∀ ptr, Reached zones (t.locate ptr offset width policy).2 live ∧
      (t.locate ptr offset width policy).2.liveRegions = live := by
  have htracks := h.tracks
  refine ⟨fun addr target => ?_, fun addr hnone => ?_, rfl, fun ptr => ?_⟩
  · rw [htracks.locate_eq_ok_iff, add_offset_eq_iff]
  · have hrejects := hnone (addr + offset.toUInt32) (add_offset_eq_iff.mp rfl)
    rw [locate_valid, if_pos ((htracks.rejects_iff _ _ _ _).mpr hrejects)]
  · have hstep := h.step (show (Op.locate ptr offset width policy).Fair t live from trivial)
    exact ⟨hstep, hstep.tracks.liveRegions_eq⟩

/-- Back from the end of a region, and past it. -/
theorem locate_of_reached_pair :
    ∃ t : Table, (t.locate (.valid 0x1010) (-4) .word .permit).1 = .ok 0x100c ∧
      (t.locate (.valid 0x1010) 0x20 .byte .permit).1 = .error (.invalidAccess 0x1010 0x20 1) := by
  obtain ⟨t, ht⟩ := exists_reached_pair
  have hpair : ⟨0x1000, 16⟩ ∈ ({⟨0x1020, 0x400⟩, ⟨0x1000, 16⟩} : Set Bounds) := by simp
  obtain ⟨hok, -⟩ := locate_of_reached ht (-4) .word .permit
  obtain ⟨-, herror, -⟩ := locate_of_reached ht 0x20 .byte .permit
  refine ⟨t, (hok _ _).mpr ⟨by decide, .inl ⟨_, hpair, by decide, by decide, by decide⟩⟩,
    herror _ ?_⟩
  rintro target htarget (⟨b, hb, hspans, hfrom, hto⟩ | ⟨hno, -⟩)
  · have hplace : (target.toNat : Int) = 0x1030 := htarget
    rcases hb with rfl | rfl
    · exact absurd hspans (by decide)
    · have hto' : target.toNat + 1 ≤ 4096 + 16 := hto
      omega
  · exact hno _ hpair (by decide)

end Table

end RegionGuard
