import RegionGuard.Proofs.Table.Undoing

/-!
# A registration given up halfway

A registration enters its region at the first block, then fills the blocks between
one page after the other, and enters it at the last block at the end.  If identifiers
run out underway, the removal runs over all these blocks, although only some of them
were written.

It does no harm to the others.  In blocks between that were not filled yet there is
nothing to remove, whether they have got a page or not, and in the last block no region
starts where this one does.  So from every point underway the removal leads back to the
lists from before the registration, and a registration that fails shows nowhere.
-/

namespace RegionGuard

namespace Block

variable {bounds : Bounds} {blocks : Slot → Block} {n : Nat}

/-- The blocks after a region has been entered at its first block and the blocks between
have been filled up to the one of number `n`. -/
def underway (bounds : Bounds) (n : Nat) (blocks : Slot → Block) (s : Slot) : Block :=
  if s = Slot.ofAddr bounds.start then (blocks s).push bounds
  else if (Slot.ofAddr bounds.start).number < s.number ∧ s.number < n then (blocks s).hold bounds
  else blocks s

/-- A block between holds what it held or the region. -/
theorem underway_of_encloses {s : Slot} (hs : bounds.Encloses s) :
    underway bounds n blocks s = (blocks s).hold bounds ∨
      underway bounds n blocks s = blocks s := by
  rw [underway, if_neg hs.ne_first]
  split
  · exact .inl rfl
  · exact .inr rfl

/-- A removal takes back what a registration has done so far, if the blocks between held
nothing before and no region of the last block starts where this one does. -/
theorem leave_underway (hle : n ≤ (Slot.ofAddr bounds.stop).number)
    (hbetween : ∀ s, bounds.Encloses s → (blocks s).regions = [])
    (hlast : ∀ r ∈ (blocks (Slot.ofAddr bounds.stop)).regions, r.start ≠ bounds.start) :
    Block.leave bounds (underway bounds n blocks) = blocks := by
  -- neither the last block nor one outside has been filled
  have hkept : ∀ s, s ≠ Slot.ofAddr bounds.start → ¬ bounds.Encloses s →
      underway bounds n blocks s = blocks s := by
    intro s hstart hs
    have hout : ¬ ((Slot.ofAddr bounds.start).number < s.number ∧ s.number < n) := by
      intro hin
      exact hs ⟨hin.1, Nat.lt_of_lt_of_le hin.2 hle⟩
    rw [underway, if_neg hstart, if_neg hout]
  apply leave_eq
  · intro s hs
    by_cases hstart : s = Slot.ofAddr bounds.start
    · rw [underway, if_pos hstart, drop_push]
    · rw [hkept s hstart hs.not_encloses]
      obtain rfl : s = Slot.ofAddr bounds.stop := hs.resolve_left hstart
      exact drop_of_none hlast
  · intro s hs
    rcases underway_of_encloses hs with hheld | hsame
    · rw [hheld]
      exact vacate_of_nil (hbetween s hs)
    · rw [hsame]
      exact vacate_of_nil (hbetween s hs)
  · intro s hs hin
    exact hkept s (fun hstart => hs (.inl hstart)) hin

end Block

namespace Table

/-- Nothing is in the way of the region: the blocks between its ends hold nothing, and
no region in its last block starts where it does. -/
structure Clear (t : Table) (b : Bounds) : Prop where
  linked : t.Linked
  lossFree : t.LossFree
  between : ∀ s, b.Encloses s → (t.block s).regions = []
  start_ne : ∀ r ∈ (t.block (Slot.ofAddr b.stop)).regions, r.start ≠ b.start

/-- After the region has been entered at its first block, the blocks between have been
filled up to the one of number `n`, and whichever slots have got pages. -/
structure Fills (first mid : Table) (b : Bounds) (n : Nat) : Prop where
  nodes_eq : mid.nodes = first.nodes
  entry_eq : ∀ s, mid.entry s =
    if (Slot.ofAddr b.start).number < s.number ∧ s.number < n then (first.entry s).hold b
    else first.entry s
  le_last : n ≤ (Slot.ofAddr b.stop).number

/-- The table when the loop over the blocks between has come to the block of number
`stop`. -/
def filledTo (b : Bounds) (stop : Nat) (first : Table) : Table :=
  ⟨(first.directory.modifySpan true (Entry.hold b) ((Slot.ofAddr b.start).number + 1) stop).2,
    first.nodes⟩

/-- The table after the registration of the region has been given up. -/
def rollBack (b : Bounds) (mid : Table) : Table :=
  mid.detachRange (Slot.ofAddr b.start) (Slot.ofAddr b.stop) b.start

/-- Giving up the registration of a region in the table `mid` leads back to `t`. -/
structure RollsBack (t mid : Table) (b : Bounds) : Prop where
  /-- The loop over the blocks between does not fail. -/
  span_ok : ((mid.detach (Slot.ofAddr b.start) b.start).directory.modifySpan false Entry.vacate
    ((Slot.ofAddr b.start).number + 1) (Slot.ofAddr b.stop).number).1 = true
  /-- No slot gets a page, and no node is made or put in use. -/
  frugal : mid.Frugal (mid.rollBack b)
  /-- Every block lists what it did, and every answer is the same. -/
  resembles : t.Resembles (mid.rollBack b)
  /-- The region is not there to be removed. -/
  unregister_error : ((mid.rollBack b).unregister b.start).1 = .error (.invalidRemoval b.start)

variable {t first mid : Table} {zones : List Zone} {live : Set Bounds} {b : Bounds} {n : Nat}

/-! ## Underway -/

/-- A table that tracks the live regions is clear for any region that can be admitted. -/
theorem Tracks.clear (h : t.Tracks zones live) (hb : b.Admissible live) : t.Clear b where
  linked := h.linked
  lossFree := h.lossFree
  between _ hs := h.regions_eq_nil hb.fits hb.apart hs
  start_ne r hr := (hb.apart r ((h.mem_iff _ r).mp hr).1).start_ne

/-- Giving a slot a page of its own leaves the table as far filled as it was. -/
theorem Fills.own (h : first.Fills mid b n) (d : Fin directorySlots) :
    first.Fills ⟨(mid.directory.own d).2, mid.nodes⟩ b n where
  nodes_eq := h.nodes_eq
  entry_eq s := by
    rw [← h.entry_eq]
    exact mid.directory.entry_own d s
  le_last := h.le_last

/-- The loop comes by every number of blocks filled. -/
theorem fills_filledTo (first : Table) {stop : Nat} (hlast : stop ≤ (Slot.ofAddr b.stop).number) :
    first.Fills (first.filledTo b stop) b stop where
  nodes_eq := rfl
  entry_eq s := by
    have hcount : stop ≤ blockCount := hlast.trans (Nat.le_of_lt (Slot.ofAddr b.stop).number_lt)
    exact first.directory.entry_modifySpan_hold b hcount s
  le_last := hlast

/-- Only blocks between are filled. -/
theorem Fills.encloses (h : first.Fills mid b n) {s : Slot}
    (hs : (Slot.ofAddr b.start).number < s.number ∧ s.number < n) : b.Encloses s :=
  ⟨hs.1, Nat.lt_of_lt_of_le hs.2 h.le_last⟩

/-- A region that has been entered at a block is in front there. -/
theorem Linked.becomes_of_attach (h : t.Linked) (hbounds : b.isVacant = false) {s : Slot}
    (hattach : t.attach s b = (.ok (), first)) :
    t.Becomes first (Function.update t.block s ((t.block s).push b)) := by
  rcases h.attach_cases s hbounds with ⟨after, hafter, hbecomes, -⟩ | ⟨herror, -⟩
  · obtain rfl : after = first := congrArg Prod.snd (hafter.symm.trans hattach)
    exact hbecomes
  · rw [hattach] at herror
    cases herror

/-- The lists of the blocks underway. -/
theorem Clear.underway (h : t.Clear b) (hbounds : b.isVacant = false)
    (hattach : t.attach (Slot.ofAddr b.start) b = (.ok (), first)) (hfills : first.Fills mid b n) :
    mid.Linked ∧ mid.LossFree ∧ mid.block = Block.underway b n t.block := by
  have hfirst := h.linked.becomes_of_attach hbounds hattach
  have hother : ∀ s, s ≠ Slot.ofAddr b.start → first.block s = t.block s := by
    intro s hs
    rw [hfirst.block_eq, Function.update_of_ne hs]
  obtain ⟨directory, nodes⟩ := mid
  obtain rfl : nodes = first.nodes := hfills.nodes_eq
  obtain ⟨hlinked, hblock, hfull⟩ := hfirst.linked.hold hbounds hfills.entry_eq
  refine ⟨hlinked, hfull (fun s hs => ?_) (hfirst.lossFree h.lossFree), hblock.trans ?_⟩
  · have hencloses := hfills.encloses hs
    rw [hother s hencloses.ne_first, h.between s hencloses]
    exact Nat.zero_le 1
  · funext s
    rw [Block.underway]
    by_cases hstart : s = Slot.ofAddr b.start
    · have hout : ¬ ((Slot.ofAddr b.start).number < s.number ∧ s.number < n) := fun hin =>
        (hfills.encloses hin).ne_first hstart
      rw [if_neg hout, if_pos hstart, hfirst.block_eq, hstart, Function.update_self]
    · rw [if_neg hstart, hother s hstart]

/-- In a block that has been filled the region is found already. -/
theorem Clear.standing_of_filled (h : t.Clear b) (hbounds : b.isVacant = false) (hfits : b.Fits)
    (hattach : t.attach (Slot.ofAddr b.start) b = (.ok (), first)) (hfills : first.Fills mid b n)
    {addr : Addr} (hfrom : (Slot.ofAddr b.start).number < (Slot.ofAddr addr).number)
    (hto : (Slot.ofAddr addr).number < n) : (mid.standing addr).1 = .region b := by
  obtain ⟨hlinked, -, hblock⟩ := h.underway hbounds hattach hfills
  have hencloses : b.Encloses (Slot.ofAddr addr) := hfills.encloses ⟨hfrom, hto⟩
  have hcontains : b.contains addr = true :=
    hfits.contains_iff.mpr (hfits.spans_of_encloses hencloses rfl)
  have hfound : (mid.lookup addr).1 = b := by
    rw [Table.lookup, (hlinked.find _ addr).1, hblock, Block.underway,
      if_neg hencloses.ne_first, if_pos ⟨hfrom, hto⟩, Block.hold, Block.find_of_head hcontains]
  have huntracked : b ≠ Bounds.untracked := by
    rintro rfl
    cases hbounds
  show Standing.of (mid.lookup addr).1 = _
  rw [hfound, Standing.of, if_neg huntracked, hbounds]
  rfl

/-! ## Giving up -/

/-- Wherever a registration has got to, giving it up leads back to the lists before. -/
theorem Clear.rollBack (h : t.Clear b) (hbounds : b.isVacant = false)
    (hattach : t.attach (Slot.ofAddr b.start) b = (.ok (), first)) (hfills : first.Fills mid b n) :
    (mid.rollBack b).Linked ∧ (mid.rollBack b).LossFree ∧ (mid.rollBack b).block = t.block := by
  obtain ⟨hlinked, hlossFree, hblock⟩ := h.underway hbounds hattach hfills
  obtain ⟨hlinked', hblock', hfull⟩ := hlinked.detachRange b
  have hshort : ∀ s, b.Encloses s → (mid.block s).regions.length ≤ 1 := by
    intro s hs
    rw [hblock]
    rcases Block.underway_of_encloses hs with hheld | hsame
    · rw [hheld]
      exact Nat.le_refl 1
    · rw [hsame, h.between s hs]
      exact Nat.zero_le 1
  refine ⟨hlinked', hfull hshort hlossFree, hblock'.trans ?_⟩
  rw [hblock]
  exact Block.leave_underway hfills.le_last h.between h.start_ne

/-- In a table that tracks its regions, the table afterwards tracks them again. -/
theorem Tracks.rollsBack (h : t.Tracks zones live) (hb : b.Admissible live)
    (hattach : t.attach (Slot.ofAddr b.start) b = (.ok (), first)) (hfills : first.Fills mid b n) :
    t.RollsBack mid b := by
  have hbounds := Bounds.isVacant_of_start_ne hb.start_ne
  obtain ⟨hlinked, hfull, hblock⟩ := (h.clear hb).rollBack hbounds hattach hfills
  have htracks : (mid.rollBack b).Tracks zones live :=
    h.of_perm hlinked hfull (fun s => by rw [hblock]) fun s => by rw [hblock]
  obtain ⟨after, hafter, -⟩ := htracks.unregister_of_none fun r hr => (hb.apart r hr).start_ne
  exact
    { span_ok := Directory.fst_modifySpan _ _ _ _ _
      frugal := mid.frugal_detachRange _ _ b.start
      resembles := h.linked.resembles hlinked h.lossFree hfull hblock
      unregister_error := by rw [hafter] }

/-! ## Registrations that fail -/

/-- Changing nothing but pages does not show. -/
theorem Linked.resembles_own (h : t.Linked) (hfull : t.LossFree) (d : Fin directorySlots) :
    t.Resembles ⟨(t.directory.own d).2, t.nodes⟩ := by
  obtain ⟨hlinked, hblock, hfull'⟩ := h.own d
  exact h.resembles hlinked hfull (hfull' hfull) hblock

/-- A registration that fails on its way is given up, and shows nowhere. -/
theorem Clear.register_of_error (h : t.Clear b) (hstart : b.start ≠ 0) (hfits : b.Fits)
    {violation : Violation} {after : Table}
    (hregister : t.register b.start b.size = (.error violation, after)) : t.Resembles after := by
  have hbounds := Bounds.isVacant_of_start_ne hstart
  rw [Table.register, if_neg hstart, if_neg (Nat.not_le.mpr hfits)] at hregister
  dsimp only at hregister
  rcases hattach : t.attach (Slot.ofAddr b.start) b with ⟨_ | _, first⟩
  · rw [hattach] at hregister
    obtain rfl : first = after := congrArg Prod.snd hregister
    rw [h.linked.attach_of_error hattach]
    exact h.linked.resembles_own h.lossFree _
  · rw [hattach] at hregister
    dsimp only at hregister
    split at hregister
    · cases hregister
    · rcases hrest : first.attachRest (Slot.ofAddr b.start) (Slot.ofAddr b.stop) b with
        ⟨_ | _, rest⟩
      · rw [hrest] at hregister
        obtain rfl : rest.rollBack b = after := congrArg Prod.snd hregister
        rw [attachRest_eq] at hrest
        have hfilled := @fills_filledTo b first _ (Nat.le_refl _)
        obtain ⟨hlinked, -, -⟩ := h.underway hbounds hattach hfilled
        have hfills := hfilled.own (Slot.ofAddr b.stop).dir
        rw [← hlinked.attach_of_error hrest] at hfills
        obtain ⟨hback, hfull, hblock⟩ := h.rollBack hbounds hattach hfills
        exact h.linked.resembles hback h.lossFree hfull hblock
      · rw [hrest] at hregister
        cases hregister

/-! ## Reached tables -/

/-- Wherever fair use has taken a table, a registration that nothing speaks against can
be given up at any point behind its first block.  The loop over the blocks between comes
by these points, and giving pages to slots leads from one to another. -/
theorem rollsBack_of_reached (h : Reached zones t live) (hb : b.Admissible live) :
    ∃ first, t.attach (Slot.ofAddr b.start) b = (.ok (), first) ∧
      (∀ stop ≤ (Slot.ofAddr b.stop).number, first.Fills (first.filledTo b stop) b stop) ∧
      ∀ n mid, first.Fills mid b n → t.RollsBack mid b ∧
        ∀ d, first.Fills ⟨(mid.directory.own d).2, mid.nodes⟩ b n := by
  have htracks := h.tracks
  have hbounds := Bounds.isVacant_of_start_ne hb.start_ne
  rcases htracks.linked.attach_cases (Slot.ofAddr b.start) hbounds with
    ⟨first, hattach, -, -⟩ | ⟨-, hlimit⟩
  · refine ⟨first, hattach, fun _ hlast => fills_filledTo first hlast, ?_⟩
    intro n mid hfills
    exact ⟨htracks.rollsBack hb hattach hfills, hfills.own⟩
  · have hroom := htracks.room
    omega

/-- A region of a megabyte that shares its first block, given up when a quarter of its
blocks has been filled. -/
theorem rollsBack_of_reached_neighbour :
    ∃ t first, Reached [] t {⟨0x400000, 8⟩} ∧
      t.attach (Slot.ofAddr 0x400010) ⟨0x400010, 0x100000⟩ = (.ok (), first) ∧
      ((first.filledTo ⟨0x400010, 0x100000⟩ 0x4400).standing 0x420000).1 =
        .region ⟨0x400010, 0x100000⟩ ∧
      ((first.filledTo ⟨0x400010, 0x100000⟩ 0x4400).rollBack ⟨0x400010, 0x100000⟩).listing =
        t.listing ∧
      (((first.filledTo ⟨0x400010, 0x100000⟩ 0x4400).rollBack ⟨0x400010, 0x100000⟩).standing
        0x420000).1 = .untracked := by
  obtain ⟨t, ht⟩ := @exists_reached_single [] 0x400000 8 (by decide) (by decide)
  have hb : Bounds.Admissible ⟨0x400010, 0x100000⟩ {⟨0x400000, 8⟩} := by
    refine ⟨by decide, by decide, ?_⟩
    rintro r rfl
    exact Bounds.apart_of_lt (by decide)
  obtain ⟨first, hattach, hfills, hback⟩ := rollsBack_of_reached ht hb
  have hfilled := hfills 0x4400 (by decide)
  have hresembles := (hback _ _ hfilled).1.resembles
  have hregion := (ht.tracks.clear hb).standing_of_filled (by decide) hb.fits hattach hfilled
    (show (Slot.ofAddr 0x400010).number < (Slot.ofAddr 0x420000).number by decide) (by decide)
  refine ⟨t, first, ht, hattach, hregion, hresembles.listing_eq,
    (hresembles.standing_eq 0x420000).trans ?_⟩
  rw [ht.tracks.answers.untracked_iff]
  simp only [Set.mem_singleton_iff, forall_eq]
  decide

end Table

end RegionGuard
