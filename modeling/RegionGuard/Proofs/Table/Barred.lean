import RegionGuard.Proofs.Table.Travel

/-!
# Pointers into barred memory

Memory that is forbidden, or untracked under the strict policy, is barred: every
access by way of one of its addresses fails.  Arithmetic there compares with
`Bounds.forbidden`, and these are the bounds of an empty region whose end, address 0,
belongs to it like the end of any other.  So the one offset that leads from a barred
address to address 0 has a valid result, while all others have none.

No region starts at address 0, so none has this address.  Where address 0 is barred
as well, the pointer to it is of no use.  Where it is untracked and the policy permits
that, the pointer is as good there as any other, and a pointer has escaped from
barred memory.
-/

namespace RegionGuard

/-- The end of the empty region at address 0 is all that belongs to it. -/
theorem Bounds.contains_forbidden_iff {addr : Addr} :
    Bounds.forbidden.contains addr = true ↔ addr = 0 := by
  have hfits : Bounds.forbidden.Fits := by decide
  rw [hfits.contains_iff]
  constructor
  · intro hspans
    exact UInt32.toNat_inj.mp (Nat.le_zero.mp hspans.2)
  · rintro rfl
    exact Bounds.spans_start _

/-- Some offset leads from an address to address 0. -/
theorem exists_offset_to_zero (addr : Addr) : ∃ offset : Int32, addr + offset.toUInt32 = 0 := by
  refine ⟨(-addr).toInt32, ?_⟩
  rw [UInt32.toUInt32_toInt32]
  exact UInt32.add_right_neg addr

namespace Table

/-- Nobody may access the address. -/
def Bars (t : Table) (policy : UntrackedPolicy) (addr : Addr) : Prop :=
  (t.standing addr).1 = .forbidden ∨ (t.standing addr).1 = .untracked ∧ policy = .forbid

/-- A pointer that sets out at the address comes to a stop by way of which something
is accessed. -/
def Escapes (t : Table) (policy : UntrackedPolicy) (addr : Addr) : Prop :=
  ∃ offsets, ∃ stop ∈ (t.travel policy (.valid addr) offsets).1, ∃ offset width target,
    ((t.travel policy (.valid addr) offsets).2.locate stop offset width policy).1 = .ok target

/-- What a pointer in barred memory is good for. -/
structure Stranded (t : Table) (policy : UntrackedPolicy) (addr : Addr) : Prop where
  /-- Arithmetic is invalid unless it leads to address 0. -/
  advance_eq : ∀ offset, (t.advance (.valid addr) offset policy).1 =
    if (addr.toNat + offset.toInt) % addressCount = 0 then .valid 0 else .invalid
  /-- No access succeeds. -/
  locate_eq : ∀ offset width, (t.locate (.valid addr) offset width policy).1 =
    .error (.invalidAccess addr offset width.bytes)
  /-- The pointer does not escape, unless by way of address 0. -/
  escapes_iff : t.Escapes policy addr ↔ ¬ t.Bars policy 0

variable {t after : Table} {zones : List Zone} {live : Set Bounds} {policy : UntrackedPolicy}
  {addr : Addr}

/-! ## Barred addresses -/

/-- An address is barred if no live region spans it and its block is reserved, or
whatever its block is under the strict policy. -/
theorem Tracks.bars_iff (h : t.Tracks zones live) :
    t.Bars policy addr ↔
      (∀ b ∈ live, ¬ b.Spans addr) ∧ (Reserved zones (Slot.ofAddr addr) ∨ policy = .forbid) := by
  rw [Bars, h.answers.forbidden_iff, h.answers.untracked_iff]
  tauto

/-- A pointer into barred memory has the bounds of forbidden memory. -/
theorem Tracks.boundsUnder_of_bars (h : t.Tracks zones live) (hbars : t.Bars policy addr) :
    (t.boundsUnder addr policy).1 = Bounds.forbidden := by
  obtain ⟨hno, hbarred⟩ := h.bars_iff.mp hbars
  rw [fst_boundsUnder, h.lookup_of_none hno, sentinelOf]
  rcases hbarred with hreserved | rfl
  · rw [if_pos hreserved, if_neg]
    intro huntracked
    exact absurd huntracked.1 (by decide)
  · by_cases hreserved : Reserved zones (Slot.ofAddr addr) <;> simp [hreserved]

/-- A step from a barred address. -/
theorem Tracks.advance_of_bars (h : t.Tracks zones live) (hbars : t.Bars policy addr)
    (offset : Int32) :
    (t.advance (.valid addr) offset policy).1 =
      if addr + offset.toUInt32 = 0 then .valid 0 else .invalid := by
  rw [fst_advance_valid, h.boundsUnder_of_bars hbars]
  by_cases hzero : addr + offset.toUInt32 = 0
  · rw [if_pos (Bounds.contains_forbidden_iff.mpr hzero), if_pos hzero, hzero]
    rfl
  · rw [if_neg (mt Bounds.contains_forbidden_iff.mp hzero), if_neg hzero]

/-- Every access from there is refused, whatever its offset. -/
theorem Tracks.locate_of_bars (h : t.Tracks zones live) (hbars : t.Bars policy addr)
    (offset : Int32) (width : Width) :
    (t.locate (.valid addr) offset width policy).1 =
      .error (.invalidAccess addr offset width.bytes) := by
  have hrejects : Rejects Bounds.forbidden addr offset.toUInt32 width :=
    Nat.lt_of_lt_of_le width.bytes_pos (Nat.le_add_left _ _)
  rw [locate_valid, h.boundsUnder_of_bars hbars, if_pos hrejects]

/-! ## Journeys -/

/-- The same regions are live along a journey. -/
theorem Tracks.travel (h : t.Tracks zones live) (policy : UntrackedPolicy) (ptr : Pointer)
    (offsets : List Int32) : (t.travel policy ptr offsets).2.Tracks zones live := by
  induction offsets generalizing t ptr with
  | nil => exact h
  | cons offset rest ih => exact ih (h.advance ptr offset policy) _

/-- They decide which addresses are barred. -/
theorem Tracks.bars_congr (h : t.Tracks zones live) (h' : after.Tracks zones live)
    (hbars : t.Bars policy addr) : after.Bars policy addr :=
  h'.bars_iff.mpr (h.bars_iff.mp hbars)

/-- As long as address 0 is barred, a pointer from a barred address stands at address 0
or is invalid. -/
theorem Tracks.stops_of_bars (h : t.Tracks zones live) (hzero : t.Bars policy 0)
    (hbars : t.Bars policy addr) (offsets : List Int32) :
    ∀ ptr ∈ (t.travel policy (.valid addr) offsets).1, ptr = .valid 0 ∨ ptr = .invalid := by
  -- a first stop at address 0 is barred again, and from an invalid one there is no way on
  induction offsets generalizing t addr with
  | nil => exact fun ptr hptr => absurd hptr List.not_mem_nil
  | cons offset rest ih =>
      have hnext := h.advance (.valid addr) offset policy
      have hzero' := h.bars_congr hnext hzero
      have hfirst : (t.advance (.valid addr) offset policy).1 = .valid 0 ∨
          (t.advance (.valid addr) offset policy).1 = .invalid := by
        rw [h.advance_of_bars hbars]
        split
        · exact .inl rfl
        · exact .inr rfl
      intro ptr hptr
      rw [fst_travel_cons] at hptr
      rcases List.mem_cons.mp hptr with rfl | hlater
      · exact hfirst
      · rcases hfirst with hfirst | hfirst
        · rw [hfirst] at hlater
          exact ih hnext hzero' hzero' ptr hlater
        · rw [hfirst, fst_travel_invalid] at hlater
          exact .inr (List.eq_of_mem_replicate hlater)

/-- No live region has address 0. -/
theorem Tracks.not_spans_zero (h : t.Tracks zones live) : ∀ b ∈ live, ¬ b.Spans 0 := by
  intro b hb hspans
  exact h.separate.start_ne b hb (UInt32.toNat_inj.mp (Nat.le_zero.mp hspans.1))

/-- Where address 0 is not barred, any memory but the last byte may be accessed by way
of it. -/
theorem Tracks.locate_zero (h : t.Tracks zones live) (hopen : ¬ t.Bars policy 0)
    {offset : Int32} {width : Width} {target : Addr} (htarget : 0 + offset.toUInt32 = target)
    (hend : target.toNat + width.bytes.toNat ≤ addressCount - 1) :
    (t.locate (.valid 0) offset width policy).1 = .ok target := by
  have hpermits : ¬ Reserved zones (Slot.ofAddr 0) ∧ policy = .permit := by
    rw [h.bars_iff, not_and, not_or] at hopen
    obtain ⟨hreserved, hpolicy⟩ := hopen h.not_spans_zero
    refine ⟨hreserved, ?_⟩
    cases policy with
    | permit => rfl
    | forbid => exact absurd rfl hpolicy
  obtain ⟨hreserved, hpolicy⟩ := hpermits
  have hfallback : (t.entry (Slot.ofAddr 0)).fallback = Bounds.untracked :=
    (h.fallback_eq_untracked_iff _).mpr hreserved
  rw [h.locate_eq_ok_iff]
  exact ⟨htarget, .inr ⟨h.not_spans_zero, hfallback, hpolicy, hend⟩⟩

/-- A pointer gets out of barred memory exactly if address 0, where the forbidden bounds lie, is
not barred. -/
theorem Tracks.escapes_iff (h : t.Tracks zones live) (hbars : t.Bars policy addr) :
    t.Escapes policy addr ↔ ¬ t.Bars policy 0 := by
  constructor
  · intro hescapes hzero
    obtain ⟨offsets, stop, hstop, offset, width, target, hok⟩ := hescapes
    have hafter := h.travel policy (.valid addr) offsets
    have herror : ((t.travel policy (.valid addr) offsets).2.locate stop offset width policy).1 ≠
        .ok target := by
      rcases h.stops_of_bars hzero hbars offsets stop hstop with rfl | rfl
      · rw [hafter.locate_of_bars (h.bars_congr hafter hzero)]
        simp
      · simp [Table.locate]
    exact herror hok
  · intro hopen
    obtain ⟨offset, hoffset⟩ := exists_offset_to_zero addr
    have hafter := h.advance (.valid addr) offset policy
    have hstop : (t.advance (.valid addr) offset policy).1 = .valid 0 := by
      rw [h.advance_of_bars hbars, if_pos hoffset]
    refine ⟨[offset], .valid 0, ?_, 0, .byte, 0, ?_⟩
    · rw [fst_travel_cons, hstop]
      exact List.mem_cons_self
    · exact hafter.locate_zero (mt (hafter.bars_congr h) hopen) (by decide) (by decide)

/-- So a pointer into barred memory can get to address 0, and to no other place. -/
theorem Tracks.stranded (h : t.Tracks zones live) (hbars : t.Bars policy addr) :
    t.Stranded policy addr where
  advance_eq offset := by
    rw [h.advance_of_bars hbars]
    have hzero : addr + offset.toUInt32 = 0 ↔
        (addr.toNat + offset.toInt) % addressCount = 0 := by
      rw [add_offset_eq_iff, UInt32.toNat_zero, eq_comm]
      rfl
    exact if_congr hzero rfl rfl
  locate_eq := h.locate_of_bars hbars
  escapes_iff := h.escapes_iff hbars

/-- Wherever fair use takes a table, a pointer in barred memory is stranded. -/
theorem stranded_of_reached (h : Reached zones t live) (hbars : t.Bars policy addr) :
    t.Stranded policy addr :=
  h.tracks.stranded hbars

/-- A reserved block, and an untracked one under the strict policy. -/
theorem stranded_of_reached_single :
    ∃ t, Reached [⟨0x2000, 0x100⟩] t {⟨0x1000, 16⟩} ∧
      (t.advance (.valid 0x2000) (-0xff8) .permit).1 = .invalid ∧
      (t.locate (.valid 0x2000) (-0xff8) .byte .permit).1 =
        .error (.invalidAccess 0x2000 (-0xff8) 1) ∧
      (t.advance (.valid 0x3000) (-0x2000) .forbid).1 = .invalid ∧ ¬ t.Escapes .forbid 0x3000 := by
  obtain ⟨t, ht⟩ := @exists_reached_single [⟨0x2000, 0x100⟩] 0x1000 16 (by decide) (by decide)
  have hbars : t.Bars .permit 0x2000 := by
    rw [ht.tracks.bars_iff]
    simp only [Set.mem_singleton_iff, forall_eq]
    decide
  have hstrict : t.Bars .forbid 0x3000 := by
    rw [ht.tracks.bars_iff]
    simp only [Set.mem_singleton_iff, forall_eq]
    decide
  have hzero : t.Bars .forbid 0 := ht.tracks.bars_iff.mpr ⟨ht.tracks.not_spans_zero, .inr rfl⟩
  have hreserved := stranded_of_reached ht hbars
  have huntracked := stranded_of_reached ht hstrict
  refine ⟨t, ht, ?_, hreserved.locate_eq _ _, ?_, ?_⟩
  · rw [hreserved.advance_eq]
    decide
  · rw [huntracked.advance_eq]
    decide
  · rw [huntracked.escapes_iff, not_not]
    exact hzero

/-- From a reserved block the offset back to address 0 has a valid result, by way of
which any other memory may be accessed where the policy permits it. -/
theorem advance_of_reached_reserved :
    ∃ t, Reached [⟨0x1000, 0x100⟩] t ∅ ∧ (t.standing 0x1000).1 = .forbidden ∧
      (t.advance (.valid 0x1000) (-0x1000) .permit).1 = .valid 0 ∧
      ((t.advance (.valid 0x1000) (-0x1000) .permit).2.locate (.valid 0) 0x1000 .byte .permit).1 =
        .ok 0x1000 := by
  obtain ⟨t, ht, -⟩ := exists_reserving [⟨0x1000, 0x100⟩]
  have htracks := tracks_of_reserving ht
  have hforbidden : (t.standing 0x1000).1 = .forbidden := by
    rw [htracks.answers.forbidden_iff]
    exact ⟨by simp, by decide⟩
  have hafter := htracks.advance (.valid 0x1000) (-0x1000) .permit
  have hopen : ¬ t.Bars .permit 0 := by
    intro hzero
    obtain ⟨-, hreserved | hpolicy⟩ := htracks.bars_iff.mp hzero
    · exact absurd hreserved (by decide)
    · cases hpolicy
  refine ⟨t, ⟨t, [], ht, .nil _⟩, hforbidden, ?_, ?_⟩
  · rw [htracks.advance_of_bars (.inl hforbidden)]
    decide
  · exact hafter.locate_zero (mt (hafter.bars_congr htracks) hopen) (by decide) (by decide)

end Table

end RegionGuard
