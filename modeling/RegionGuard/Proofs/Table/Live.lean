import RegionGuard.Table.Check
import RegionGuard.Proofs.Run
import RegionGuard.Proofs.Table.Tracking

/-!
# The table as a map of live regions

For its users the table is a set of live regions: an accepted registration adds
one and an accepted removal takes one out.  Registrations come with the promise
that an accepted region is apart from the live ones.  Along every run under this
promise, whatever is looked up, moved or checked in between, the table answers as
the plain set would.
-/

namespace RegionGuard

namespace Table

/-- An operation of the table and its arguments. -/
inductive Op
  | register (start : Addr) (size : UInt32)
  | unregister (start : Addr)
  | lookup (addr : Addr)
  | find (s : Slot) (addr : Addr)
  | standing (addr : Addr)
  | sizeAt (addr : Addr)
  | advance (ptr : Pointer) (offset : Int32) (policy : UntrackedPolicy)
  | locate (ptr : Pointer) (offset : Int32) (width : Width) (policy : UntrackedPolicy)

namespace Op

/-- The table after an operation. -/
def run (t : Table) : Op → Table
  | register start size => (t.register start size).2
  | unregister start => (t.unregister start).2
  | lookup addr => (t.lookup addr).2
  | find s addr => (t.find s addr).2
  | standing addr => (t.standing addr).2
  | sizeAt addr => (t.sizeAt addr).2
  | advance ptr offset policy => (t.advance ptr offset policy).2
  | locate ptr offset width policy => (t.locate ptr offset width policy).2

/-- Neither a registration nor a removal. -/
def Looks : Op → Prop
  | register _ _ | unregister _ => False
  | _ => True

/-- The live regions after an operation of a table. -/
def live (t : Table) (before : Set Bounds) : Op → Set Bounds
  | register start size =>
    match (t.register start size).1 with
    | .ok () => insert ⟨start, size⟩ before
    | .error _ => before
  | unregister start =>
    match (t.unregister start).1 with
    | .ok () => {b ∈ before | b.start ≠ start}
    | .error _ => before
  | _ => before

/-- The promise of whoever registers a region. -/
def Fair (t : Table) (before : Set Bounds) : Op → Prop
  | register start size =>
    (t.register start size).1 = .ok () → ∀ b ∈ before, b.Apart ⟨start, size⟩
  | _ => True

end Op

/-- A table in use, together with the regions that are live. -/
def system : System (Table × Set Bounds) Op where
  permits state op := op.Fair state.1 state.2
  next state op := (op.run state.1, op.live state.1 state.2)

/-- A fresh table with the given zones can come to this table and these live
regions. -/
def Reached (zones : List Zone) (t : Table) (live : Set Bounds) : Prop :=
  ∃ fresh ops, reserving zones = .ok fresh ∧ system.Run (fresh, ∅) ops (t, live)

/-- The regions that some block of the table lists. -/
def liveRegions (t : Table) : Set Bounds :=
  {b | ∃ addr, b ∈ t.regionsAt addr}

/-- Every question is answered from the zones and the set of live regions. -/
structure Answers (t : Table) (zones : List Zone) (live : Set Bounds) : Prop where
  /-- The regions listed are the live ones. -/
  listed : t.liveRegions = live
  /-- An address belongs to a region if it is live and spans the address. -/
  region_iff : ∀ addr b, (t.standing addr).1 = .region b ↔ b ∈ live ∧ b.Spans addr
  /-- Of the other addresses, those in a block that one zone fills are forbidden. -/
  forbidden_iff : ∀ addr, (t.standing addr).1 = .forbidden ↔
    (∀ b ∈ live, ¬ b.Spans addr) ∧ Reserved zones (Slot.ofAddr addr)
  /-- The rest is untracked. -/
  untracked_iff : ∀ addr, (t.standing addr).1 = .untracked ↔
    (∀ b ∈ live, ¬ b.Spans addr) ∧ ¬ Reserved zones (Slot.ofAddr addr)
  /-- Exactly the starts of live regions have a size. -/
  sizeAt_iff : ∀ addr size, (t.sizeAt addr).1 = some size ↔ ⟨addr, size⟩ ∈ live
  /-- A registration fails at address 0 and past the end of the address space. -/
  register_eq : ∀ start size, (t.register start size).1 =
    if start = 0 then .error .nullRegion
    else if addressCount ≤ start.toNat + size.toNat then .error (.regionOverflow start size)
    else .ok ()
  /-- A removal succeeds at the start of a live region. -/
  unregister_ok : ∀ start, (∃ b ∈ live, b.start = start) → (t.unregister start).1 = .ok ()
  /-- A removal fails everywhere else. -/
  unregister_error : ∀ start, (¬ ∃ b ∈ live, b.start = start) →
    (t.unregister start).1 = .error (.invalidRemoval start)

variable {t : Table} {zones : List Zone} {live : Set Bounds}

/-! ## What every operation keeps -/

/-- The policy decides about an answer and not about what a look-up leaves behind. -/
theorem snd_boundsUnder (t : Table) (addr : Addr) (policy : UntrackedPolicy) :
    (t.boundsUnder addr policy).2 = (t.lookup addr).2 := by
  unfold boundsUnder
  dsimp only
  split <;> rfl

theorem sizeAt_eq (t : Table) (addr : Addr) :
    t.sizeAt addr =
      if (t.lookup addr).1.isVacant || (t.lookup addr).1.start != addr then
        (none, (t.lookup addr).2)
      else (some (t.lookup addr).1.size, (t.lookup addr).2) := rfl

/-- An operation that only looks leaves the table as it was or as a single look-up
leaves it. -/
theorem Op.run_of_looks (op : Op) (t : Table) (hlooks : op.Looks) :
    op.run t = t ∨ ∃ s addr, op.run t = (t.find s addr).2 := by
  cases op with
  | register start size => exact hlooks.elim
  | unregister start => exact hlooks.elim
  | lookup addr => exact .inr ⟨_, addr, rfl⟩
  | find s addr => exact .inr ⟨s, addr, rfl⟩
  | standing addr => exact .inr ⟨_, addr, rfl⟩
  | sizeAt addr =>
      refine .inr ⟨Slot.ofAddr addr, addr, ?_⟩
      rw [run, sizeAt_eq]
      split <;> rfl
  | advance ptr offset policy =>
      cases ptr with
      | invalid => exact .inl rfl
      | valid addr =>
          refine .inr ⟨_, addr, Eq.trans ?_ (snd_boundsUnder t addr policy)⟩
          unfold run Table.advance
          dsimp only
          split <;> rfl
  | locate ptr offset width policy =>
      cases ptr with
      | invalid => exact .inl rfl
      | valid addr =>
          refine .inr ⟨_, addr, Eq.trans ?_ (snd_boundsUnder t addr policy)⟩
          unfold run Table.locate
          dsimp only
          split <;> rfl

/-- No operation that only looks changes which regions are tracked. -/
theorem Tracks.looks (h : t.Tracks zones live) (op : Op) (hlooks : op.Looks) :
    (op.run t).Tracks zones live := by
  rcases op.run_of_looks t hlooks with hsame | ⟨s, addr, hfind⟩
  · rw [hsame]
    exact h
  · rw [hfind]
    exact h.find s addr

theorem Tracks.sizeAt (h : t.Tracks zones live) (addr : Addr) :
    (t.sizeAt addr).2.Tracks zones live :=
  h.looks (.sizeAt addr) trivial

theorem Tracks.advance (h : t.Tracks zones live) (ptr : Pointer) (offset : Int32)
    (policy : UntrackedPolicy) : (t.advance ptr offset policy).2.Tracks zones live :=
  h.looks (.advance ptr offset policy) trivial

theorem Tracks.locate (h : t.Tracks zones live) (ptr : Pointer) (offset : Int32) (width : Width)
    (policy : UntrackedPolicy) : (t.locate ptr offset width policy).2.Tracks zones live :=
  h.looks (.locate ptr offset width policy) trivial

/-- A start of 0 or a size that overflows is refused before anything is touched. -/
theorem register_error {start : Addr} {size : UInt32}
    (h : start = 0 ∨ addressCount ≤ start.toNat + size.toNat) :
    (t.register start size).2 = t := by
  by_cases hstart : start = 0
  · rw [Table.register, if_pos hstart]
  · rw [Table.register, if_neg hstart, if_pos (h.resolve_left hstart)]

/-- Every permitted operation keeps the table in step with the live regions. -/
theorem Tracks.step (h : t.Tracks zones live) (op : Op) (hfair : op.Fair t live) :
    (op.run t).Tracks zones (op.live t live) := by
  cases op with
  | register start size =>
      have hresult := h.fst_register start size
      by_cases hrefused : start = 0 ∨ addressCount ≤ start.toNat + size.toNat
      · have hlive : (Op.register start size).live t live = live := by
          rw [Op.live, hresult]
          rcases hrefused with hstart | hover
          · rw [if_pos hstart]
          · split_ifs <;> rfl
        rw [hlive, Op.run, register_error hrefused]
        exact h
      · have hstart : start ≠ 0 := fun hstart => hrefused (.inl hstart)
        have hfits : ¬ addressCount ≤ start.toNat + size.toNat := fun hover =>
          hrefused (.inr hover)
        rw [if_neg hstart, if_neg hfits] at hresult
        obtain ⟨after, hafter, htracks⟩ :=
          h.register hstart (Nat.lt_of_not_le hfits) (hfair hresult)
        rw [Op.live, Op.run, hafter]
        exact htracks
  | unregister start =>
      by_cases hlive : ∃ b ∈ live, b.start = start
      · obtain ⟨b, hb, rfl⟩ := hlive
        obtain ⟨after, hafter, htracks⟩ := h.unregister_of_mem hb
        have hothers : live \ {b} = {r ∈ live | r.start ≠ b.start} := by
          ext r
          rw [Set.mem_sdiff, Set.mem_singleton_iff, Set.mem_ofPred_eq]
          refine and_congr_right fun hr => not_congr ⟨fun heq => by rw [heq], fun heq => ?_⟩
          exact h.separate.eq_of_start hr hb heq
        rw [Op.live, Op.run, hafter]
        exact hothers ▸ htracks
      · push Not at hlive
        obtain ⟨after, hafter, htracks⟩ := h.unregister_of_none hlive
        rw [Op.live, Op.run, hafter]
        exact htracks
  | lookup | find | standing | sizeAt | advance | locate => exact h.looks _ trivial

/-- An accepted registration adds its region to the live ones. -/
theorem Tracks.live_register (h : t.Tracks zones live) {start : Addr} {size : UInt32}
    (hstart : start ≠ 0) (hfits : Bounds.Fits ⟨start, size⟩) :
    (Op.register start size).live t live = insert ⟨start, size⟩ live := by
  rw [Op.live, h.fst_register, if_neg hstart, if_neg (Nat.not_le.mpr hfits)]

/-- Every table that fair use can lead to tracks its live regions. -/
theorem Reached.tracks (h : Reached zones t live) : t.Tracks zones live := by
  obtain ⟨fresh, ops, hfresh, hrun⟩ := h
  refine hrun.invariant (fun state => state.1.Tracks zones state.2) ?_
    (tracks_of_reserving hfresh)
  intro state op hfair htracks
  exact htracks.step op hfair

/-- One more fair operation leads to another such table. -/
theorem Reached.step (h : Reached zones t live) {op : Op} (hfair : op.Fair t live) :
    Reached zones (op.run t) (op.live t live) := by
  obtain ⟨fresh, ops, hfresh, hrun⟩ := h
  exact ⟨fresh, ops ++ [op], hfresh, hrun.snoc hfair⟩

/-- A run can go on with every registration that is not refused. -/
theorem Reached.register (h : Reached zones t live) {start : Addr} {size : UInt32}
    (hstart : start ≠ 0) (hfits : Bounds.Fits ⟨start, size⟩)
    (hapart : ∀ b ∈ live, b.Apart ⟨start, size⟩) :
    ∃ after, t.register start size = (.ok (), after) ∧
      Reached zones after (insert ⟨start, size⟩ live) := by
  obtain ⟨after, hafter, -⟩ := h.tracks.register hstart hfits hapart
  have hstep := h.step (show (Op.register start size).Fair t live from fun _ => hapart)
  rw [Op.live, Op.run, hafter] at hstep
  exact ⟨after, hafter, hstep⟩

/-! ## The answers -/

/-- The live regions can be read off the table. -/
theorem Tracks.liveRegions_eq (h : t.Tracks zones live) : t.liveRegions = live := by
  ext b
  constructor
  · intro ⟨addr, hb⟩
    rw [← regions_block] at hb
    exact ((h.mem_iff _ b).mp hb).1
  · intro hb
    refine ⟨b.start, ?_⟩
    rw [← regions_block]
    exact (h.mem_iff _ b).mpr ⟨hb, b.start, Bounds.spans_start b, rfl⟩

/-- How an address without a region stands depends on the zones alone. -/
theorem standing_of_sentinel (zones : List Zone) (s : Slot) :
    Standing.of (sentinelOf zones s) = if Reserved zones s then .forbidden else .untracked := by
  unfold sentinelOf
  split <;> rfl

/-- An address in a live region stands as this region. -/
theorem Tracks.standing_of_spans (h : t.Tracks zones live) {b : Bounds} (hb : b ∈ live)
    {addr : Addr} (hspans : b.Spans addr) : (t.standing addr).1 = .region b := by
  show Standing.of (t.lookup addr).1 = _
  have hstart := h.separate.start_ne b hb
  have huntracked : b ≠ Bounds.untracked := by
    rintro rfl
    exact hstart rfl
  rw [h.lookup_of_spans hb hspans, Standing.of, if_neg huntracked, h.isVacant_of_mem hb]
  rfl

/-- Any other address stands as its block is marked. -/
theorem Tracks.standing_of_none (h : t.Tracks zones live) {addr : Addr}
    (hno : ∀ b ∈ live, ¬ b.Spans addr) :
    (t.standing addr).1 = if Reserved zones (Slot.ofAddr addr) then .forbidden else .untracked := by
  show Standing.of (t.lookup addr).1 = _
  rw [h.lookup_of_none hno, standing_of_sentinel]

/-- An address either belongs to one live region or to none. -/
theorem Tracks.standing_cases (h : t.Tracks zones live) (addr : Addr) :
    (∃ b ∈ live, b.Spans addr ∧ (t.standing addr).1 = .region b) ∨
      (∀ b ∈ live, ¬ b.Spans addr) ∧
        ((Reserved zones (Slot.ofAddr addr) ∧ (t.standing addr).1 = .forbidden) ∨
          (¬ Reserved zones (Slot.ofAddr addr) ∧ (t.standing addr).1 = .untracked)) := by
  by_cases hspans : ∃ b ∈ live, b.Spans addr
  · obtain ⟨b, hb, hspans⟩ := hspans
    exact .inl ⟨b, hb, hspans, h.standing_of_spans hb hspans⟩
  · push Not at hspans
    refine .inr ⟨hspans, ?_⟩
    rw [h.standing_of_none hspans]
    by_cases hreserved : Reserved zones (Slot.ofAddr addr)
    · exact .inl ⟨hreserved, if_pos hreserved⟩
    · exact .inr ⟨hreserved, if_neg hreserved⟩

/-- The start of a live region has the region's size. -/
theorem Tracks.sizeAt_of_mem (h : t.Tracks zones live) {b : Bounds} (hb : b ∈ live) :
    (t.sizeAt b.start).1 = some b.size := by
  rw [sizeAt_eq, h.lookup_start_of_mem hb, if_neg (by simp),
    h.lookup_of_spans hb (Bounds.spans_start b)]

/-- No other address has a size, not even one inside a region. -/
theorem Tracks.sizeAt_of_none (h : t.Tracks zones live) {addr : Addr}
    (hno : ∀ b ∈ live, b.start ≠ addr) : (t.sizeAt addr).1 = none := by
  rw [sizeAt_eq, if_pos (h.lookup_start hno)]

/-- A table that tracks the live regions answers every question as they require. -/
theorem Tracks.answers (h : t.Tracks zones live) : t.Answers zones live where
  listed := h.liveRegions_eq
  region_iff addr b := by
    constructor
    · intro hregion
      rcases h.standing_cases addr with ⟨r, hr, hspans, heq⟩ | ⟨-, ⟨-, heq⟩ | ⟨-, heq⟩⟩
      · obtain rfl : r = b := Standing.region.inj (heq.symm.trans hregion)
        exact ⟨hr, hspans⟩
      · cases heq.symm.trans hregion
      · cases heq.symm.trans hregion
    · intro ⟨hb, hspans⟩
      exact h.standing_of_spans hb hspans
  forbidden_iff addr := by
    constructor
    · intro hforbidden
      rcases h.standing_cases addr with ⟨r, -, -, heq⟩ | ⟨hno, ⟨hreserved, -⟩ | ⟨-, heq⟩⟩
      · cases heq.symm.trans hforbidden
      · exact ⟨hno, hreserved⟩
      · cases heq.symm.trans hforbidden
    · intro ⟨hno, hreserved⟩
      rw [h.standing_of_none hno, if_pos hreserved]
  untracked_iff addr := by
    constructor
    · intro huntracked
      rcases h.standing_cases addr with ⟨r, -, -, heq⟩ | ⟨hno, ⟨-, heq⟩ | ⟨hopen, -⟩⟩
      · cases heq.symm.trans huntracked
      · cases heq.symm.trans huntracked
      · exact ⟨hno, hopen⟩
    · intro ⟨hno, hopen⟩
      rw [h.standing_of_none hno, if_neg hopen]
  sizeAt_iff addr size := by
    constructor
    · intro hsize
      by_cases hlive : ∃ b ∈ live, b.start = addr
      · obtain ⟨b, hb, rfl⟩ := hlive
        obtain rfl : b.size = size := Option.some.inj ((h.sizeAt_of_mem hb).symm.trans hsize)
        exact hb
      · push Not at hlive
        cases (h.sizeAt_of_none hlive).symm.trans hsize
    · intro hb
      have hsize := h.sizeAt_of_mem hb
      exact hsize
  register_eq := h.fst_register
  unregister_ok := by
    rintro start ⟨b, hb, rfl⟩
    obtain ⟨after, hafter, -⟩ := h.unregister_of_mem hb
    rw [hafter]
  unregister_error := by
    intro start hlive
    push Not at hlive
    obtain ⟨after, hafter, -⟩ := h.unregister_of_none hlive
    rw [hafter]

/-- There is a fresh table for every list of zones, and wherever fair use takes
it, it answers every question as the set of live regions does. -/
theorem answers_of_reached (zones : List Zone) :
    (∃ fresh, reserving zones = .ok fresh) ∧
      ∀ t live, Reached zones t live → t.Answers zones live := by
  obtain ⟨fresh, hfresh, -⟩ := exists_reserving zones
  refine ⟨⟨fresh, hfresh⟩, ?_⟩
  intro t live h
  exact h.tracks.answers

/-- A run to one region. -/
theorem exists_reached_single (zones : List Zone) {start : Addr} {size : UInt32}
    (hstart : start ≠ 0) (hfits : Bounds.Fits ⟨start, size⟩) :
    ∃ t, Reached zones t {⟨start, size⟩} := by
  obtain ⟨fresh, hfresh, -⟩ := exists_reserving zones
  have hnothing : Reached zones fresh ∅ := ⟨fresh, [], hfresh, .nil _⟩
  obtain ⟨t, -, ht⟩ := hnothing.register hstart hfits (by simp)
  rw [insert_empty_eq] at ht
  exact ⟨t, ht⟩

/-- A run to two regions that share a block, next to a reserved zone. -/
theorem exists_reached_pair :
    ∃ t, Reached [⟨0x2000, 0x200⟩] t {⟨0x1020, 0x400⟩, ⟨0x1000, 16⟩} := by
  obtain ⟨one, hone⟩ := @exists_reached_single [⟨0x2000, 0x200⟩] 0x1000 16 (by decide) (by decide)
  have hapart : Bounds.Apart ⟨0x1000, 16⟩ ⟨0x1020, 0x400⟩ := Bounds.apart_of_lt (by decide)
  obtain ⟨two, -, htwo⟩ := @Reached.register _ _ _ hone 0x1020 0x400 (by decide) (by decide)
    (by simpa using hapart)
  exact ⟨two, htwo⟩

/-- Addresses in each of the two regions, in neither, and in the zone. -/
theorem answers_of_reached_pair :
    ∃ t : Table, (t.standing 0x1010).1 = .region ⟨0x1000, 16⟩ ∧
      (t.standing 0x1420).1 = .region ⟨0x1020, 0x400⟩ ∧
      (t.standing 0x1011).1 = .untracked ∧ (t.standing 0x20ff).1 = .forbidden ∧
      (t.sizeAt 0x1020).1 = some 0x400 := by
  obtain ⟨t, ht⟩ := exists_reached_pair
  have h := (answers_of_reached [⟨0x2000, 0x200⟩]).2 t _ ht
  have hnone : ∀ addr, (∀ b ∈ ({⟨0x1020, 0x400⟩, ⟨0x1000, 16⟩} : Set Bounds), ¬ b.Spans addr) ↔
      ¬ Bounds.Spans ⟨0x1020, 0x400⟩ addr ∧ ¬ Bounds.Spans ⟨0x1000, 16⟩ addr := by simp
  refine ⟨t, ?_, ?_, ?_, ?_, ?_⟩
  · rw [h.region_iff]
    exact ⟨by simp, by decide⟩
  · rw [h.region_iff]
    exact ⟨by simp, by decide⟩
  · rw [h.untracked_iff, hnone]
    decide
  · rw [h.forbidden_iff, hnone]
    decide
  · rw [h.sizeAt_iff]
    simp

end Table

end RegionGuard
