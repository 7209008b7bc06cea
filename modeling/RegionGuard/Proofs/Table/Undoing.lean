import RegionGuard.Proofs.Table.Looking

/-!
# A registration undone

A removal right after the registration of the region takes everything back.  The
region stands in front of the lists of its first and its last block, so it is found
there without a change of order and taken out in front, and the blocks between held
nothing before it.  The lists of all blocks are the same as before, in the same order,
and so is everything that can be asked or is printed.

What stays are the pages that the region needed and the nodes that have become free.
The next registration finds them in place.  So registering and removing a region over
and over changes no count after the first round, and every registration of it looks
like the first.
-/

namespace RegionGuard

/-- Nothing speaks against registering the region. -/
structure Bounds.Admissible (b : Bounds) (live : Set Bounds) : Prop where
  start_ne : b.start ≠ 0
  fits : b.Fits
  apart : ∀ r ∈ live, r.Apart b

theorem Bounds.Admissible.not_mem {b : Bounds} {live : Set Bounds} (h : b.Admissible live) :
    b ∉ live := fun hb => h.apart b hb b.start ⟨b.spans_start, b.spans_start⟩

/-! ## Lists -/

namespace Block

variable {bounds : Bounds} {blocks before : Slot → Block}

/-- The region in front is taken out again. -/
@[simp] theorem drop_push (bounds : Bounds) (b : Block) :
    (b.push bounds).drop bounds.start = b :=
  drop_of_head

/-- An empty block stays as it is. -/
theorem vacate_of_nil {b : Block} (h : b.regions = []) : b.vacate = b := by
  rw [vacate, ← h]

/-- What a removal leaves is decided at the ends of the region, between them and
elsewhere. -/
theorem leave_eq (hends : ∀ s, bounds.EndsIn s → (blocks s).drop bounds.start = before s)
    (hbetween : ∀ s, bounds.Encloses s → (blocks s).vacate = before s)
    (hother : ∀ s, ¬ bounds.EndsIn s → ¬ bounds.Encloses s → blocks s = before s) :
    Block.leave bounds blocks = before := by
  funext s
  rw [Block.leave, Block.along]
  by_cases hs : bounds.EndsIn s
  · rw [if_pos hs, hends s hs]
  · rw [if_neg hs]
    by_cases hin : bounds.Encloses s
    · rw [if_pos hin, hbetween s hin]
    · rw [if_neg hin, hother s hs hin]

/-- A removal takes back what a registration has done, if the blocks between had no
region. -/
theorem leave_enter (hbetween : ∀ s, bounds.Encloses s → (blocks s).regions = []) :
    Block.leave bounds (Block.enter bounds blocks) = blocks := by
  apply leave_eq
  · intro s hs
    rw [Block.enter, Block.along, if_pos hs, drop_push]
  · intro s hs
    have hends : ¬ bounds.EndsIn s := fun hends => hends.not_encloses hs
    rw [Block.enter, Block.along, if_neg hends, if_pos hs]
    exact vacate_of_nil (hbetween s hs)
  · intro s hs hin
    rw [Block.enter, Block.along, if_neg hs, if_neg hin]

end Block

/-- The removal finds the region in front of its first block. -/
theorem Blocks.unregister_enter {b : Bounds} {blocks : Blocks} (hstart : b.start ≠ 0)
    (hfits : b.Fits) (hbetween : ∀ s, b.Encloses s → (blocks s).regions = []) :
    Blocks.unregister (Block.enter b blocks) b.start = (.ok (), blocks) := by
  have hfirst : Block.enter b blocks (Slot.ofAddr b.start) =
      (blocks (Slot.ofAddr b.start)).push b := by
    rw [Block.enter, Block.along, if_pos (.inl rfl)]
  have hcontains : b.contains b.start = true := hfits.contains_iff.mpr b.spans_start
  have hfind : Blocks.find (Block.enter b blocks) (Slot.ofAddr b.start) b.start =
      (b, Block.enter b blocks) := by
    rw [Blocks.find, hfirst, Block.push, Block.find_of_head hcontains]
    dsimp only
    rw [← Block.push, ← hfirst, Function.update_eq_self]
  have hfound : (b.isVacant || b.start != b.start) = false := by
    simp [Bounds.isVacant_of_start_ne hstart]
  rw [Blocks.unregister, hfind]
  dsimp only
  rw [hfound, Block.leave_enter hbetween]
  rfl

namespace Table

/-- The other table lists the same regions in the same order, and answers the same. -/
structure Resembles (t other : Table) : Prop where
  /-- Each block lists the same. -/
  regionsAt_eq : ∀ addr, other.regionsAt addr = t.regionsAt addr
  /-- Each block falls back to the same. -/
  isForbidden_eq : ∀ s, (other.entry s).isForbidden = (t.entry s).isForbidden
  /-- Each address is the same. -/
  standing_eq : ∀ addr, (other.standing addr).1 = (t.standing addr).1
  /-- The printed form is the same. -/
  listing_eq : other.listing = t.listing
  /-- As many nodes are in use. -/
  liveNodes_eq : other.counts.liveNodes = t.counts.liveNodes

/-- The table after a registration of the region. -/
def registered (b : Bounds) (t : Table) : Table :=
  (t.register b.start b.size).2

/-- The table after a registration and the removal of the region. -/
def round (b : Bounds) (t : Table) : Table :=
  ((t.registered b).unregister b.start).2

/-- What a registration and a removal do to the table `t` after any rounds of them,
which have led to `before`. -/
structure Undoes (t before : Table) (b : Bounds) : Prop where
  /-- The registration succeeds. -/
  register_ok : (before.register b.start b.size).1 = .ok ()
  /-- The removal succeeds. -/
  unregister_ok : ((before.registered b).unregister b.start).1 = .ok ()
  /-- Afterwards the table lists and answers what it did before the first round. -/
  restored : t.Resembles (before.round b)
  /-- In between it lists and answers what it did in the first round. -/
  repeated : (t.registered b).Resembles (before.registered b)
  /-- It has the counts of the first round then. -/
  registered_counts : (before.registered b).counts = (t.registered b).counts
  /-- So it has afterwards. -/
  round_counts : (before.round b).counts = (t.round b).counts

variable {t other first second : Table} {zones : List Zone} {live live' : Set Bounds} {b : Bounds}

/-! ## Tables with the same lists -/

/-- The lists of the blocks decide about everything else that shows. -/
theorem Linked.resembles (h : t.Linked) (h' : other.Linked) (hfull : t.LossFree)
    (hfull' : other.LossFree) (hblock : other.block = t.block) : t.Resembles other where
  regionsAt_eq addr := by rw [← regions_block, ← regions_block, hblock]
  isForbidden_eq s := congrArg Block.isForbidden (congrFun hblock s)
  standing_eq addr := by
    show Standing.of (other.find _ addr).1 = Standing.of (t.find _ addr).1
    rw [(h.find _ addr).1, (h'.find _ addr).1, hblock]
  listing_eq := by rw [h.listing_eq, h'.listing_eq, hblock]
  liveNodes_eq := by
    show other.nodes.usedCount = t.nodes.usedCount
    rw [h.usedCount_eq hfull, h'.usedCount_eq hfull']
    refine Finset.sum_congr rfl fun n _ => ?_
    rw [h.length_nodesAt, h'.length_nodesAt, hblock]

/-! ## One round -/

/-- A region that can be admitted can be registered, and then it is live. -/
theorem Tracks.register_admissible (h : t.Tracks zones live) (hb : b.Admissible live) :
    (t.register b.start b.size).1 = .ok () ∧ t.Registers (t.registered b) b ∧
      (t.registered b).Tracks zones (insert b live) := by
  obtain ⟨after, hafter, hregisters⟩ := h.linked.register hb.start_ne hb.fits h.room
  obtain ⟨after', hafter', htracks⟩ := h.register hb.start_ne hb.fits hb.apart
  obtain rfl : after = after' := congrArg Prod.snd (hafter.symm.trans hafter')
  rw [registered, hafter]
  exact ⟨rfl, hregisters, htracks⟩

/-- After a removal all blocks list what they listed before, in the same order. -/
theorem Tracks.unregister_registered (h : t.Tracks zones live) (hb : b.Admissible live) :
    ((t.registered b).unregister b.start).1 = .ok () ∧ (t.round b).block = t.block ∧
      (t.round b).Tracks zones live := by
  obtain ⟨-, hregisters, htracks⟩ := h.register_admissible hb
  obtain ⟨hresult, -, hblock⟩ := hregisters.linked.unregister b.start
  have hlists : Blocks.unregister (t.registered b).block b.start = (.ok (), t.block) := by
    rw [hregisters.block_eq]
    exact Blocks.unregister_enter hb.start_ne hb.fits fun s hs =>
      h.regions_eq_nil hb.fits hb.apart hs
  rw [hlists] at hresult hblock
  obtain ⟨after, hafter, hback⟩ := htracks.unregister_of_mem (Set.mem_insert b live)
  rw [Set.insert_sdiff_self_of_notMem hb.not_mem] at hback
  refine ⟨hresult, hblock, ?_⟩
  rw [round, hafter]
  exact hback

/-! ## Rounds -/

theorem Twins.trans {third : Table} (h : Twins zones live first second)
    (h' : Twins zones live second third) : Twins zones live first third where
  tracks := h.tracks
  tracks' := h'.tracks'
  owned_eq d := (h.owned_eq d).trans (h'.owned_eq d)
  size_eq := h.size_eq.trans h'.size_eq

/-- A registration that follows a removal of the same region finds the pages and the
nodes in place. -/
theorem Tracks.twins_registered (h : t.Tracks zones live) (hb : b.Admissible live) :
    Twins zones (insert b live) (t.registered b) ((t.round b).registered b) := by
  obtain ⟨-, hregisters, htracks⟩ := h.register_admissible hb
  obtain ⟨-, -, hback⟩ := h.unregister_registered hb
  obtain ⟨-, hagain, htracks'⟩ := hback.register_admissible hb
  have hfrugal : (t.registered b).Frugal (t.round b) := frugal_unregister _ b.start
  refine ⟨htracks, htracks', fun d => ?_, ?_⟩
  · rw [Bool.eq_iff_iff, hagain.charges.owned_iff, hfrugal.owned_eq, hregisters.charges.owned_iff,
      or_assoc, or_self]
  · have hused := htracks.usedCount_eq htracks'
    have hle : (t.registered b).nodes.usedCount ≤ (t.registered b).nodes.nodes.size :=
      Nat.sub_le _ _
    rw [hagain.charges.size_eq, hfrugal.size_eq, ← hused, max_eq_left hle]

/-- What any number of rounds keeps. -/
theorem Tracks.iterate_round (h : t.Tracks zones live) (hb : b.Admissible live) (n : Nat) :
    ((round b)^[n] t).Tracks zones live ∧ ((round b)^[n] t).block = t.block ∧
      Twins zones (insert b live) (t.registered b) (((round b)^[n] t).registered b) := by
  induction n with
  | zero =>
      obtain ⟨-, -, htracks⟩ := h.register_admissible hb
      exact ⟨h, rfl, htracks, htracks, fun _ => rfl, rfl⟩
  | succ n ih =>
      obtain ⟨hbefore, hblock, htwins⟩ := ih
      obtain ⟨-, hback, htracks⟩ := hbefore.unregister_registered hb
      rw [Function.iterate_succ_apply']
      exact ⟨htracks, hback.trans hblock, htwins.trans (hbefore.twins_registered hb)⟩

/-- Registering and removing a region leaves nothing that shows, after any number of rounds. -/
theorem Tracks.undoes (h : t.Tracks zones live) (hb : b.Admissible live) (n : Nat) :
    t.Undoes ((round b)^[n] t) b := by
  obtain ⟨hbefore, hblock, htwins⟩ := h.iterate_round hb n
  obtain ⟨-, hregisters, htracks⟩ := h.register_admissible hb
  obtain ⟨-, -, hround⟩ := h.unregister_registered hb
  obtain ⟨hok, hregisters', htracks'⟩ := hbefore.register_admissible hb
  obtain ⟨hok', hblock', hround'⟩ := hbefore.unregister_registered hb
  have hsame : (((round b)^[n] t).registered b).block = (t.registered b).block := by
    rw [hregisters'.block_eq, hregisters.block_eq, hblock]
  have htwins' : Twins zones live (t.round b) (((round b)^[n] t).round b) :=
    htwins.of_frugal (frugal_unregister _ b.start) (frugal_unregister _ b.start) hround hround'
  exact
    { register_ok := hok
      unregister_ok := hok'
      restored := h.linked.resembles hround'.linked h.lossFree hround'.lossFree
        (hblock'.trans hblock)
      repeated := htracks.linked.resembles htracks'.linked htracks.lossFree htracks'.lossFree hsame
      registered_counts := htwins.counts_eq.symm
      round_counts := htwins'.counts_eq.symm }

/-- Wherever fair use takes a table, a removal right after a registration undoes it,
however often the two are repeated. -/
theorem undoes_of_reached (h : Reached zones t live) (hb : b.Admissible live) (n : Nat) :
    t.Undoes ((round b)^[n] t) b :=
  h.tracks.undoes hb n

/-- A region that shares its first block, reaches over reserved blocks and gets a page
of its own. -/
theorem undoes_of_reached_pair :
    ∃ t, Reached [⟨0x2000, 0x200⟩] t {⟨0x1020, 0x400⟩, ⟨0x1000, 16⟩} ∧
      ((round ⟨0x1430, 0x80000⟩)^[3] t).listing = t.listing ∧
      (((round ⟨0x1430, 0x80000⟩)^[3] t).standing 0x2000).1 = .forbidden ∧
      ((round ⟨0x1430, 0x80000⟩)^[3] t).counts = (t.round ⟨0x1430, 0x80000⟩).counts := by
  obtain ⟨t, ht⟩ := exists_reached_pair
  have hb : Bounds.Admissible ⟨0x1430, 0x80000⟩ {⟨0x1020, 0x400⟩, ⟨0x1000, 16⟩} := by
    refine ⟨by decide, by decide, ?_⟩
    rintro r (rfl | rfl) <;> exact Bounds.apart_of_lt (by decide)
  have hundoes := undoes_of_reached ht hb 2
  refine ⟨t, ht, hundoes.restored.listing_eq, ?_, hundoes.round_counts⟩
  have hstanding := hundoes.restored.standing_eq 0x2000
  refine hstanding.trans ?_
  rw [ht.tracks.answers.forbidden_iff]
  simp only [Set.mem_insert_iff, Set.mem_singleton_iff, forall_eq_or_imp, forall_eq]
  decide

end Table

end RegionGuard
