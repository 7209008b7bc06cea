import RegionGuard.Proofs.Table.Access

/-!
# Pointers that travel

Pointer arithmetic is done one offset at a time, and each step resolves its pointer
in the table anew.  A pointer that sets out inside a live region nevertheless keeps
to it: the address behind the last byte belongs to this region and to no other, so
every stop is in the region or invalid, and from an invalid one there is no way
back.  As long as the stops are valid only the sum of the offsets counts, for the
last stop as well as for the accesses made from it.
-/

namespace RegionGuard

/-- The sum of the offsets, as a number of any size. -/
def totalOffset : List Int32 → Int
  | [] => 0
  | offset :: rest => offset.toInt + totalOffset rest

@[simp] theorem totalOffset_nil : totalOffset [] = 0 := rfl

@[simp] theorem totalOffset_cons (offset : Int32) (rest : List Int32) :
    totalOffset (offset :: rest) = offset.toInt + totalOffset rest := rfl

namespace Table

/-- The results of applying offsets to a pointer, each one to the result of the one
before, and the table after them. -/
def travel (policy : UntrackedPolicy) : Table → Pointer → List Int32 → List Pointer × Table
  | t, _, [] => ([], t)
  | t, ptr, offset :: rest =>
    match t.advance ptr offset policy with
    | (next, t) =>
      match travel policy t next rest with
      | (stops, t) => (next :: stops, t)

/-- What the stops of a journey are that sets out at an address of a live region. -/
structure Steady (live : Set Bounds) (b : Bounds) (addr : Addr)
    (offsets : List Int32) (stops : List Pointer) : Prop where
  /-- The valid stops of a journey without an invalid one are in the region. -/
  spans : (∀ ptr ∈ stops, ptr.isValid = true) → ∀ stop, .valid stop ∈ stops → b.Spans stop
  /-- Its last stop depends on the sum of the offsets only. -/
  last_eq : (∀ ptr ∈ stops, ptr.isValid = true) → ∃ last : Addr,
    stops.getLastD (.valid addr) = .valid last ∧
      (last.toNat : Int) = (addr.toNat + totalOffset offsets) % addressCount
  /-- From there every access is accepted or not, and reaches what it reaches, as if it
  had been made at once, in any two tables with these live regions. -/
  locate_iff : (∀ ptr ∈ stops, ptr.isValid = true) →
    ∀ last, stops.getLastD (.valid addr) = .valid last →
    ∀ more combined : Int32, combined.toInt = totalOffset offsets + more.toInt →
    ∀ zones one other, Reached zones one live → Reached zones other live →
    ∀ width policy target, (one.locate (.valid last) more width policy).1 = .ok target ↔
      (other.locate (.valid addr) combined width policy).1 = .ok target
  /-- All stops after an invalid one are invalid. -/
  invalid_stays : stops.Pairwise fun ptr later => ptr = .invalid → later = .invalid
  /-- The address that stands for the invalid pointer is no stop. -/
  not_mem_invalidAddr : .valid invalidAddr ∉ stops

variable {t : Table} {zones : List Zone} {live : Set Bounds} {policy : UntrackedPolicy}

/-! ## One step -/

/-- A valid pointer stays valid as long as its move stays within the bounds that it has at the
time. -/
theorem fst_advance_valid (t : Table) (addr : Addr) (offset : Int32) (policy : UntrackedPolicy) :
    (t.advance (.valid addr) offset policy).1 =
      if (t.boundsUnder addr policy).1.contains (addr + offset.toUInt32) = true then
        .ofAddr (addr + offset.toUInt32)
      else .invalid := by
  have hmoved : (t.boundsUnder addr policy).1.distance addr + offset.toUInt32 =
      (t.boundsUnder addr policy).1.distance (addr + offset.toUInt32) := by
    unfold Bounds.distance
    grind
  unfold advance
  dsimp only
  rw [hmoved, Bounds.contains]
  split
  · rename_i hlt
    rw [if_neg (by simpa using hlt)]
  · rename_i hle
    rw [if_pos (by simpa using hle)]

/-- A step from an address of a live region ends in this region, or else it is
invalid. -/
theorem Tracks.advance_of_spans (h : t.Tracks zones live) {b : Bounds} (hb : b ∈ live)
    {addr : Addr} (hspans : b.Spans addr) (offset : Int32) (policy : UntrackedPolicy) :
    (t.advance (.valid addr) offset policy).1 =
      if b.Spans (addr + offset.toUInt32) then .ofAddr (addr + offset.toUInt32)
      else .invalid := by
  rw [fst_advance_valid, h.boundsUnder_of_spans hb hspans]
  exact if_congr (h.separate.fits b hb).contains_iff rfl rfl

/-- No move ends at a valid pointer to the address that stands for the invalid one. -/
theorem advance_ne_invalidAddr (t : Table) (ptr : Pointer) (offset : Int32)
    (policy : UntrackedPolicy) : (t.advance ptr offset policy).1 ≠ .valid invalidAddr := by
  cases ptr with
  | invalid =>
      intro hvalid
      cases hvalid
  | valid addr =>
      rw [fst_advance_valid]
      split
      · exact Pointer.ofAddr_ne_valid _
      · intro hvalid
        cases hvalid

/-! ## Journeys -/

theorem fst_travel_cons (t : Table) (policy : UntrackedPolicy) (ptr : Pointer) (offset : Int32)
    (rest : List Int32) :
    (t.travel policy ptr (offset :: rest)).1 = (t.advance ptr offset policy).1 ::
      ((t.advance ptr offset policy).2.travel policy (t.advance ptr offset policy).1 rest).1 := rfl

/-- A journey only looks. -/
theorem Reached.travel (h : Reached zones t live) (policy : UntrackedPolicy) (ptr : Pointer)
    (offsets : List Int32) : Reached zones (t.travel policy ptr offsets).2 live := by
  induction offsets generalizing t ptr with
  | nil => exact h
  | cons offset rest ih =>
      have hfair : (Op.advance ptr offset policy).Fair t live := trivial
      exact ih (h.step hfair) _

/-- There is no way back from the invalid pointer. -/
theorem fst_travel_invalid (t : Table) (policy : UntrackedPolicy) (offsets : List Int32) :
    (t.travel policy .invalid offsets).1 = List.replicate offsets.length .invalid := by
  induction offsets with
  | nil => rfl
  | cons offset rest ih =>
      rw [List.length_cons, List.replicate_succ, ← ih]
      rfl

/-- A pointer that has become invalid stays so. -/
theorem pairwise_travel (t : Table) (policy : UntrackedPolicy) (ptr : Pointer)
    (offsets : List Int32) :
    (t.travel policy ptr offsets).1.Pairwise
      fun ptr later => ptr = .invalid → later = .invalid := by
  induction offsets generalizing t ptr with
  | nil => exact .nil
  | cons offset rest ih =>
      refine .cons ?_ (ih _ _)
      intro later hlater hinvalid
      rw [hinvalid, fst_travel_invalid] at hlater
      exact List.eq_of_mem_replicate hlater

/-- No stop is the valid pointer that would be taken for the invalid one. -/
theorem not_mem_travel (t : Table) (policy : UntrackedPolicy) (ptr : Pointer)
    (offsets : List Int32) : .valid invalidAddr ∉ (t.travel policy ptr offsets).1 := by
  induction offsets generalizing t ptr with
  | nil => exact List.not_mem_nil
  | cons offset rest ih =>
      intro hmem
      rcases List.mem_cons.mp hmem with hfirst | hlater
      · exact t.advance_ne_invalidAddr ptr offset policy hfirst.symm
      · exact ih _ _ hlater

/-- If every stop is valid, all of them are in the region, and the last one is the sum
of the offsets away. -/
theorem Tracks.stops_of_spans (h : t.Tracks zones live) {b : Bounds} (hb : b ∈ live)
    {addr : Addr} (hspans : b.Spans addr) {offsets : List Int32}
    (hvalid : ∀ ptr ∈ (t.travel policy (.valid addr) offsets).1, ptr.isValid = true) :
    (∀ stop, .valid stop ∈ (t.travel policy (.valid addr) offsets).1 → b.Spans stop) ∧
      ∃ last : Addr,
        (t.travel policy (.valid addr) offsets).1.getLastD (.valid addr) = .valid last ∧
        b.Spans last ∧ (last.toNat : Int) = (addr.toNat + totalOffset offsets) % addressCount := by
  -- the first stop is in the same region, and the rest of the journey sets out there
  induction offsets generalizing t addr with
  | nil =>
      have haddr : addr.toNat < 4294967296 := addr.toNat_lt
      refine ⟨fun stop hstop => absurd hstop List.not_mem_nil, addr, rfl, hspans, ?_⟩
      rw [totalOffset_nil]
      show (addr.toNat : Int) = _ % 4294967296
      omega
  | cons offset rest ih =>
      let next := addr + offset.toUInt32
      -- a first stop that is valid is the address that the offset leads to
      have hfirst : (t.advance (.valid addr) offset policy).1 = .valid next ∧ b.Spans next := by
        have hhead : (t.advance (.valid addr) offset policy).1.isValid = true :=
          hvalid _ List.mem_cons_self
        rw [h.advance_of_spans hb hspans] at hhead ⊢
        by_cases hin : b.Spans next
        · rw [if_pos hin] at hhead ⊢
          refine ⟨?_, hin⟩
          unfold Pointer.ofAddr at hhead ⊢
          split at hhead
          · cases hhead
          · rename_i hne
            rw [if_neg hne]
        · rw [if_neg hin] at hhead
          cases hhead
      obtain ⟨hstop, hnext⟩ := hfirst
      rw [fst_travel_cons, hstop] at hvalid ⊢
      have htail := ih (h.advance (.valid addr) offset policy) hnext fun ptr hptr =>
        hvalid ptr (List.mem_cons_of_mem _ hptr)
      obtain ⟨hspans', last, hlast, hin, hplace⟩ := htail
      refine ⟨?_, last, ?_, hin, ?_⟩
      · intro stop hmem
        rcases List.mem_cons.mp hmem with heq | hmem
        · rw [Pointer.valid.inj heq]
          exact hnext
        · exact hspans' stop hmem
      · rw [List.getLastD_cons]
        exact hlast
      · have hmoved : (next.toNat : Int) = (addr.toNat + offset.toInt) % addressCount :=
          toNat_add_offset addr offset
        rw [hplace, hmoved, totalOffset_cons]
        show (((addr.toNat : Int) + offset.toInt) % 4294967296 + totalOffset rest) % 4294967296 =
          (_ : Int) % 4294967296
        omega

/-! ## Accesses -/

/-- By way of any address of a live region the same is accepted. -/
theorem Tracks.accepts_iff_of_spans (h : t.Tracks zones live) {b : Bounds} (hb : b ∈ live)
    {addr : Addr} (hspans : b.Spans addr) (width : Width) (target : Addr) :
    t.Accepts live policy addr width target ↔
      b.start.toNat ≤ target.toNat ∧
        target.toNat + width.bytes.toNat ≤ b.start.toNat + b.size.toNat := by
  constructor
  · intro haccepts
    rcases haccepts with ⟨r, hr, hspans', hbytes⟩ | ⟨hno, -⟩
    · obtain rfl := h.separate.eq_of_spans hr hb hspans' hspans
      exact hbytes
    · exact absurd hspans (hno b hb)
  · intro hbytes
    exact .inl ⟨b, hb, hspans, hbytes⟩

/-- The last stop of a journey and its start accept the same accesses. -/
theorem locate_iff_of_last {one other : Table} (hone : one.Tracks zones live)
    (hother : other.Tracks zones live) {b : Bounds} (hb : b ∈ live) {addr last : Addr}
    (hspans : b.Spans addr) (hin : b.Spans last) {total : Int}
    (hlast : (last.toNat : Int) = (addr.toNat + total) % addressCount) {more combined : Int32}
    (hcombined : combined.toInt = total + more.toInt) (width : Width) (target : Addr) :
    (one.locate (.valid last) more width policy).1 = .ok target ↔
      (other.locate (.valid addr) combined width policy).1 = .ok target := by
  have hplace : (last.toNat + more.toInt) % (addressCount : Int) =
      (addr.toNat + combined.toInt) % addressCount := by
    rw [hlast, hcombined, Int.emod_add_emod, add_assoc]
  rw [hone.locate_eq_ok_iff, hother.locate_eq_ok_iff, add_offset_eq_iff, add_offset_eq_iff, hplace,
    hone.accepts_iff_of_spans hb hin, hother.accepts_iff_of_spans hb hspans]

/-- A pointer does not drift from the region in which it sets out. -/
theorem Tracks.steady (h : t.Tracks zones live) {b : Bounds} (hb : b ∈ live) {addr : Addr}
    (hspans : b.Spans addr) (policy : UntrackedPolicy) (offsets : List Int32) :
    Steady live b addr offsets (t.travel policy (.valid addr) offsets).1 where
  spans hvalid := (h.stops_of_spans hb hspans hvalid).1
  last_eq hvalid := by
    obtain ⟨-, last, hlast, -, hplace⟩ := h.stops_of_spans hb hspans hvalid
    exact ⟨last, hlast, hplace⟩
  locate_iff hvalid last hend more combined hcombined zones one other hone hother width policy
      target := by
    obtain ⟨-, place, hlast, hin, hplace⟩ := h.stops_of_spans hb hspans hvalid
    obtain rfl := Pointer.valid.inj (hlast.symm.trans hend)
    exact locate_iff_of_last hone.tracks hother.tracks hb hspans hin hplace hcombined width target
  invalid_stays := pairwise_travel t policy (.valid addr) offsets
  not_mem_invalidAddr := not_mem_travel t policy (.valid addr) offsets

/-- Wherever fair use takes a table, pointers keep to the regions in which they set
out, and no arithmetic on pointers yields the address that stands for the invalid
one. -/
theorem steady_of_reached (h : Reached zones t live) :
    (∀ b ∈ live, ∀ addr, b.Spans addr → ∀ policy offsets,
      Steady live b addr offsets (t.travel policy (.valid addr) offsets).1 ∧
        Reached zones (t.travel policy (.valid addr) offsets).2 live) ∧
    ∀ ptr offset policy, (t.advance ptr offset policy).1 ≠ .valid invalidAddr := by
  constructor
  · intro b hb addr hspans policy offsets
    exact ⟨h.tracks.steady hb hspans policy offsets, h.travel policy _ offsets⟩
  · exact t.advance_ne_invalidAddr

/-- To the end of a region and back by one step, and to its last byte from there. -/
theorem steady_of_reached_pair :
    ∃ t : Table,
      (t.travel .forbid (.valid 0x1020) [0x400, -0x10]).1 = [.valid 0x1420, .valid 0x1410] ∧
      ((t.travel .forbid (.valid 0x1020) [0x400, -0x10]).2.locate (.valid 0x1410) 0xf .byte
        .forbid).1 = .ok 0x141f := by
  obtain ⟨t, ht⟩ := exists_reached_pair
  have hlarge : ⟨0x1020, 0x400⟩ ∈ ({⟨0x1020, 0x400⟩, ⟨0x1000, 16⟩} : Set Bounds) := by simp
  obtain ⟨hsteady, -⟩ := steady_of_reached ht
  obtain ⟨hsteady, hafter⟩ := hsteady _ hlarge 0x1020 (by decide) .forbid [0x400, -0x10]
  have hfirst : (t.advance (.valid 0x1020) 0x400 .forbid).1 = .valid 0x1420 := by
    rw [ht.tracks.advance_of_spans hlarge (by decide)]
    decide
  have hsecond : ((t.advance (.valid 0x1020) 0x400 .forbid).2.advance (.valid 0x1420) (-0x10)
      .forbid).1 = .valid 0x1410 := by
    rw [(ht.tracks.advance _ _ _).advance_of_spans hlarge (by decide)]
    decide
  have hstops : (t.travel .forbid (.valid 0x1020) [0x400, -0x10]).1 =
      [.valid 0x1420, .valid 0x1410] := by
    rw [fst_travel_cons, hfirst, fst_travel_cons, hsecond]
    rfl
  refine ⟨t, hstops, ?_⟩
  rw [hstops] at hsteady
  rw [hsteady.locate_iff (by decide) 0x1410 rfl 0xf 0x3ff (by decide) _ _ t hafter ht,
    ht.tracks.locate_eq_ok_iff]
  exact ⟨by decide, .inl ⟨_, hlarge, by decide, by decide, by decide⟩⟩

end Table

end RegionGuard
