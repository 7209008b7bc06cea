import RegionGuard.Proofs.Table.BlockChange

/-!
# Registering and removing as changes of lists

A registration puts the region in front of the lists of its first and its last
block and makes it the only region of the blocks between.  A removal takes it out
of the first and the last list and empties the lists between.  That the blocks
between lose whatever they held is the one place where a node can be lost, so
both keep a table free of losses if these blocks held no more than one region.

Nothing here asks regions to be disjoint.  A registration needs at most two nodes,
and pages for the slots that the region reaches; a removal needs neither.  Also a
registration that finds no identifier leaves the lists in order.
-/

namespace RegionGuard

/-- A region that does not start at address 0 is none of the sentinels. -/
theorem Bounds.isVacant_of_start_ne {b : Bounds} (h : b.start ≠ 0) : b.isVacant = false := by
  simpa [isVacant] using h

/-- The block lies strictly between the first and the last block of a region. -/
def Bounds.Encloses (b : Bounds) (s : Slot) : Prop :=
  (Slot.ofAddr b.start).number < s.number ∧ s.number < (Slot.ofAddr b.stop).number

instance (b : Bounds) (s : Slot) : Decidable (b.Encloses s) :=
  inferInstanceAs (Decidable (_ ∧ _))

/-- The block is the first or the last one of a region. -/
def Bounds.EndsIn (b : Bounds) (s : Slot) : Prop :=
  s = Slot.ofAddr b.start ∨ s = Slot.ofAddr b.stop

instance (b : Bounds) (s : Slot) : Decidable (b.EndsIn s) :=
  inferInstanceAs (Decidable (_ ∨ _))

/-- A block where a region starts or stops is not one between. -/
theorem Bounds.EndsIn.not_encloses {b : Bounds} {s : Slot} (h : b.EndsIn s) : ¬ b.Encloses s := by
  intro ⟨hfirst, hlast⟩
  rcases h with rfl | rfl <;> omega

theorem Bounds.Encloses.ne_first {b : Bounds} {s : Slot} (h : b.Encloses s) :
    s ≠ Slot.ofAddr b.start := by
  rintro rfl
  exact Nat.lt_irrefl _ h.1

/-- The directory slots of the blocks that a region reaches. -/
def Bounds.dirs (b : Bounds) : Set (Fin directorySlots) :=
  {d | ∃ s : Slot, (b.EndsIn s ∨ b.Encloses s) ∧ s.dir = d}

/-- They are those of the first block, of the blocks between, and of the last one. -/
theorem Bounds.dirs_eq (b : Bounds) :
    b.dirs = {(Slot.ofAddr b.start).dir} ∪ {d | ∃ s : Slot, s.dir = d ∧ b.Encloses s} ∪
      {(Slot.ofAddr b.stop).dir} := by
  ext d
  simp only [dirs, EndsIn, Set.mem_union, Set.mem_singleton_iff, Set.mem_ofPred_eq]
  constructor
  · rintro ⟨s, (rfl | rfl) | hs, rfl⟩
    · exact .inl (.inl rfl)
    · exact .inr rfl
    · exact .inl (.inr ⟨s, rfl, hs⟩)
  · rintro ((rfl | ⟨s, rfl, hs⟩) | rfl)
    · exact ⟨_, .inl (.inl rfl), rfl⟩
    · exact ⟨s, .inr hs, rfl⟩
    · exact ⟨_, .inl (.inr rfl), rfl⟩

/-- A region within one block reaches one slot. -/
theorem Bounds.dirs_of_single {b : Bounds} (hsame : Slot.ofAddr b.start = Slot.ofAddr b.stop) :
    b.dirs = {(Slot.ofAddr b.start).dir} := by
  have hnone : {d | ∃ s : Slot, s.dir = d ∧ b.Encloses s} = ∅ := by
    ext d
    simp only [Encloses, ← hsame, Set.mem_ofPred_eq, Set.mem_empty_iff_false, iff_false]
    rintro ⟨s, -, hs⟩
    omega
  rw [dirs_eq, hnone, ← hsame, Set.union_empty, Set.union_self]

/-- The blocks after the first and the last block of a region have been changed in
one way and those between in another. -/
def Block.along (bounds : Bounds) (atEnds between : Block → Block) (blocks : Slot → Block)
    (s : Slot) : Block :=
  if bounds.EndsIn s then atEnds (blocks s)
  else if bounds.Encloses s then between (blocks s)
  else blocks s

/-- The blocks after a region has been registered. -/
def Block.enter (bounds : Bounds) : (Slot → Block) → Slot → Block :=
  Block.along bounds (Block.push bounds) (Block.hold bounds)

/-- The blocks after a region has been removed. -/
def Block.leave (bounds : Bounds) : (Slot → Block) → Slot → Block :=
  Block.along bounds (Block.drop bounds.start) Block.vacate

/-- A region within one block. -/
theorem Block.along_of_single {bounds : Bounds} (atEnds between : Block → Block)
    (blocks : Slot → Block) (hsame : Slot.ofAddr bounds.start = Slot.ofAddr bounds.stop) :
    Block.along bounds atEnds between blocks = Function.update blocks (Slot.ofAddr bounds.start)
      (atEnds (blocks (Slot.ofAddr bounds.start))) := by
  funext s
  by_cases hs : s = Slot.ofAddr bounds.start
  · subst hs
    rw [Function.update_self, Block.along, if_pos (.inl rfl)]
  · have hends : ¬ bounds.EndsIn s := by
      rintro (hfirst | hlast)
      · exact hs hfirst
      · exact hs (hlast.trans hsame.symm)
    have hbetween : ¬ bounds.Encloses s := by
      unfold Bounds.Encloses
      rw [hsame]
      omega
    rw [Function.update_of_ne hs, Block.along, if_neg hends, if_neg hbetween]

/-- The order in which the blocks of a longer region are changed does not show:
the first one, those between, the last one. -/
theorem Block.along_of_steps {bounds : Bounds} {atEnds middle : Block → Block}
    {blocks first between last : Slot → Block}
    (hdiffer : Slot.ofAddr bounds.start ≠ Slot.ofAddr bounds.stop)
    (hfirst : first = Function.update blocks (Slot.ofAddr bounds.start)
      (atEnds (blocks (Slot.ofAddr bounds.start))))
    (hbetween : between = fun s => if bounds.Encloses s then middle (first s) else first s)
    (hlast : last = Function.update between (Slot.ofAddr bounds.stop)
      (atEnds (between (Slot.ofAddr bounds.stop)))) :
    last = Block.along bounds atEnds middle blocks := by
  have hends : ∀ s, bounds.EndsIn s → between s = first s := fun s hs => by
    rw [hbetween]
    exact if_neg hs.not_encloses
  funext s
  rw [hlast, Block.along]
  by_cases hstop : s = Slot.ofAddr bounds.stop
  · subst hstop
    rw [Function.update_self, if_pos (.inr rfl), hends _ (.inr rfl), hfirst,
      Function.update_of_ne hdiffer.symm]
  · rw [Function.update_of_ne hstop]
    by_cases hstart : s = Slot.ofAddr bounds.start
    · subst hstart
      rw [if_pos (.inl rfl), hends _ (.inl rfl), hfirst, Function.update_self]
    · have hout : ¬ bounds.EndsIn s := fun h => h.elim hstart hstop
      rw [if_neg hout, hbetween, hfirst]
      simp only [Function.update_of_ne hstart]

namespace Table

variable {t : Table}

/-! ## Many blocks at once -/

/-- A block with one region at most has no nodes behind its entry. -/
theorem Linked.nodesAt_of_length (h : t.Linked) {s : Slot}
    (hlength : (t.block s).regions.length ≤ 1) : t.nodesAt (.behind s) = [] := by
  cases hheld : (t.entry s).bounds.isVacant with
  | true => exact h.nodesAt_of_next (h.vacant s hheld).2
  | false =>
      rw [block_of_held hheld] at hlength
      simpa using hlength

section Cut

variable {directory : Directory} {cut : Slot → Prop}

/-- Cutting off the chains of some blocks leaves the places of all other nodes. -/
theorem nodesAt_cut (hkeep : ∀ s, ¬ cut s → directory.entry s = t.entry s) {s : Slot}
    (hs : ¬ cut s) : nodesAt ⟨directory, t.nodes⟩ (.behind s) = t.nodesAt (.behind s) := by
  show t.nodes.chain (directory.entry s).next = t.nodes.chain (t.entry s).next
  rw [hkeep s hs]

theorem nodesAt_cut_nil (hcut : ∀ s, cut s → (directory.entry s).next = none) {s : Slot}
    (hs : cut s) : nodesAt ⟨directory, t.nodes⟩ (.behind s) = [] := by
  show t.nodes.chain (directory.entry s).next = []
  rw [hcut s hs]
  exact NodePool.Leads.nil.chain_eq

/-- Cutting nodes off from some blocks leaves the others in good order, although the nodes are
lost. -/
theorem Linked.cutOff (h : t.Linked) (hkeep : ∀ s, ¬ cut s → directory.entry s = t.entry s)
    (hcut : ∀ s, cut s → (directory.entry s).next = none)
    (hvacant : ∀ s, cut s → (directory.entry s).bounds.isVacant = true →
      (directory.entry s).bounds = (directory.entry s).fallback) :
    Linked ⟨directory, t.nodes⟩ where
  leads := by
    rintro (s | _)
    · by_cases hs : cut s
      · rw [nodesAt_cut_nil hcut hs]
        show t.nodes.Leads (directory.entry s).next []
        rw [hcut s hs]
        exact .nil
      · rw [nodesAt_cut hkeep hs]
        show t.nodes.Leads (directory.entry s).next _
        rw [hkeep s hs]
        exact h.leads (.behind s)
    · exact h.leads .free
  apart := by
    have hsub : ∀ {place id}, id ∈ nodesAt ⟨directory, t.nodes⟩ place → id ∈ t.nodesAt place := by
      rintro (s | _) id hid
      · by_cases hs : cut s
        · rw [nodesAt_cut_nil hcut hs] at hid
          cases hid
        · rwa [nodesAt_cut hkeep hs] at hid
      · exact hid
    intro p q id hp hq
    exact h.apart (hsub hp) (hsub hq)
  freeCount_eq := h.freeCount_eq
  vacant := by
    intro s hv
    by_cases hs : cut s
    · exact ⟨hvacant s hs hv, hcut s hs⟩
    · have hsame : entry ⟨directory, t.nodes⟩ s = t.entry s := hkeep s hs
      rw [hsame] at hv ⊢
      exact h.vacant s hv
  occupied := by
    intro s id hid
    by_cases hs : cut s
    · rw [nodesAt_cut_nil hcut hs] at hid
      cases hid
    · rw [nodesAt_cut hkeep hs] at hid
      exact h.occupied s id hid

/-- No node is lost if the chains that are cut off were empty. -/
theorem LossFree.cutOff (hfull : t.LossFree) (h : t.Linked)
    (hkeep : ∀ s, ¬ cut s → directory.entry s = t.entry s)
    (hlength : ∀ s, cut s → (t.block s).regions.length ≤ 1) :
    LossFree ⟨directory, t.nodes⟩ := by
  intro id hid
  obtain ⟨s | _, hat⟩ := hfull id hid
  · by_cases hs : cut s
    · rw [h.nodesAt_of_length (hlength s hs)] at hat
      cases hat
    · exact ⟨.behind s, by rwa [nodesAt_cut hkeep hs]⟩
  · exact ⟨.free, hat⟩

theorem block_cut (hkeep : ∀ s, ¬ cut s → directory.entry s = t.entry s) {s : Slot}
    (hs : ¬ cut s) : block ⟨directory, t.nodes⟩ s = t.block s :=
  block_congr (hkeep s hs) (nodesAt_cut hkeep hs) fun _ _ => rfl

end Cut

/-- Making a region the only one of many blocks. -/
theorem Linked.hold (h : t.Linked) {bounds : Bounds} (hbounds : bounds.isVacant = false)
    {directory : Directory} {cut : Slot → Prop} [DecidablePred cut]
    (hentry : ∀ s, directory.entry s = if cut s then (t.entry s).hold bounds else t.entry s) :
    Linked ⟨directory, t.nodes⟩ ∧
    block ⟨directory, t.nodes⟩ =
      (fun s => if cut s then (t.block s).hold bounds else t.block s) ∧
    ((∀ s, cut s → (t.block s).regions.length ≤ 1) → t.LossFree →
      LossFree ⟨directory, t.nodes⟩) := by
  have hkeep : ∀ s, ¬ cut s → directory.entry s = t.entry s :=
    fun s hs => (hentry s).trans (if_neg hs)
  have hcut : ∀ s, cut s → directory.entry s = (t.entry s).hold bounds :=
    fun s hs => (hentry s).trans (if_pos hs)
  have hnext : ∀ s, cut s → (directory.entry s).next = none := fun s hs => by rw [hcut s hs]; rfl
  refine ⟨h.cutOff hkeep hnext ?_, ?_, fun hlength hfull => hfull.cutOff h hkeep hlength⟩
  · intro s hs hv
    have hv' : bounds.isVacant = true := by rwa [hcut s hs] at hv
    rw [hbounds] at hv'
    cases hv'
  · funext s
    by_cases hs : cut s
    · have hheld : (entry ⟨directory, t.nodes⟩ s).bounds.isVacant = false := by
        rw [entry, hcut s hs]
        exact hbounds
      rw [if_pos hs, block_of_held hheld, nodesAt_cut_nil hnext hs, entry, hcut s hs]
      rfl
    · rw [if_neg hs, block_cut hkeep hs]

/-- Leaving many blocks without a region. -/
theorem Linked.vacate (h : t.Linked) {directory : Directory} {cut : Slot → Prop}
    [DecidablePred cut]
    (hentry : ∀ s, directory.entry s = if cut s then (t.entry s).vacate else t.entry s) :
    Linked ⟨directory, t.nodes⟩ ∧
    block ⟨directory, t.nodes⟩ = (fun s => if cut s then (t.block s).vacate else t.block s) ∧
    ((∀ s, cut s → (t.block s).regions.length ≤ 1) → t.LossFree →
      LossFree ⟨directory, t.nodes⟩) := by
  have hkeep : ∀ s, ¬ cut s → directory.entry s = t.entry s :=
    fun s hs => (hentry s).trans (if_neg hs)
  have hcut : ∀ s, cut s → directory.entry s = (t.entry s).vacate :=
    fun s hs => (hentry s).trans (if_pos hs)
  have hnext : ∀ s, cut s → (directory.entry s).next = none := fun s hs => by rw [hcut s hs]; rfl
  have hlinked : Linked ⟨directory, t.nodes⟩ := by
    refine h.cutOff hkeep hnext fun s hs _ => ?_
    rw [hcut s hs]
    rfl
  refine ⟨hlinked, ?_, fun hlength hfull => hfull.cutOff h hkeep hlength⟩
  funext s
  by_cases hs : cut s
  · have hvacant : (entry ⟨directory, t.nodes⟩ s).bounds.isVacant = true := by
      rw [entry, hcut s hs]
      exact Entry.isVacant_vacate _
    rw [if_pos hs, hlinked.block_of_vacant hvacant, entry, hcut s hs]
    rfl
  · rw [if_neg hs, block_cut hkeep hs]

/-- Giving a slot a page of its own changes no list. -/
theorem Linked.own (h : t.Linked) (d : Fin directorySlots) :
    Linked ⟨(t.directory.own d).2, t.nodes⟩ ∧
    block ⟨(t.directory.own d).2, t.nodes⟩ = t.block ∧
    (t.LossFree → LossFree ⟨(t.directory.own d).2, t.nodes⟩) := by
  have hentry : ∀ s, (t.directory.own d).2.entry s =
      if False then (t.entry s).vacate else t.entry s := t.directory.entry_own d
  obtain ⟨hlinked, hblock, hfull⟩ := h.vacate hentry
  exact ⟨hlinked, hblock, hfull fun _ hs => hs.elim⟩

/-! ## Registering -/

/-- There is always a page for the blocks between, so only the last block can fail. -/
theorem attachRest_eq (t : Table) (first last : Slot) (bounds : Bounds) :
    t.attachRest first last bounds =
      (Table.mk (t.directory.modifySpan true (Entry.hold bounds) (first.number + 1)
        last.number).2 t.nodes).attach last bounds := by
  have hok := t.directory.fst_modifySpan true (Entry.hold bounds) (first.number + 1) last.number
  rw [attachRest]
  split
  · rename_i directory heq
    rw [heq] at hok
    cases hok
  · rename_i directory heq
    rw [heq]

/-- A registration has done to the lists what `Block.enter` says, and has charged for
the slots that the region reaches. -/
structure Registers (t after : Table) (bounds : Bounds) : Prop where
  linked : after.Linked
  block_eq : after.block = Block.enter bounds t.block
  lossFree : (∀ s, bounds.Encloses s → (t.block s).regions.length ≤ 1) →
    t.LossFree → after.LossFree
  charges : t.Charges after bounds.dirs 2

/-- A region within one block is registered once it has been entered there. -/
theorem Becomes.registers_single {after : Table} {bounds : Bounds}
    (h : t.Becomes after (Function.update t.block (Slot.ofAddr bounds.start)
      ((t.block (Slot.ofAddr bounds.start)).push bounds)))
    (hcharges : t.Charges after {(Slot.ofAddr bounds.start).dir} 1)
    (hsame : Slot.ofAddr bounds.start = Slot.ofAddr bounds.stop) : t.Registers after bounds where
  linked := h.linked
  block_eq := h.block_eq.trans (Block.along_of_single _ _ _ hsame).symm
  lossFree _ := h.lossFree
  charges := by
    rw [Bounds.dirs_of_single hsame]
    exact hcharges.mono (Nat.le_succ 1)

/-- A longer one is entered at the blocks behind the first one as well, unless every
identifier is in use. -/
theorem Becomes.attachRest_cases {first : Table} {bounds : Bounds}
    (h : t.Becomes first (Function.update t.block (Slot.ofAddr bounds.start)
      ((t.block (Slot.ofAddr bounds.start)).push bounds)))
    (hcharges : t.Charges first {(Slot.ofAddr bounds.start).dir} 1)
    (hbounds : bounds.isVacant = false)
    (hdiffer : Slot.ofAddr bounds.start ≠ Slot.ofAddr bounds.stop) :
    (∃ after, first.attachRest (Slot.ofAddr bounds.start) (Slot.ofAddr bounds.stop) bounds =
        (.ok (), after) ∧ t.Registers after bounds) ∨
    (first.attachRest (Slot.ofAddr bounds.start) (Slot.ofAddr bounds.stop) bounds).1 =
        .error .metadataExhausted ∧ idLimit ≤ t.nodes.usedCount + 1 := by
  have hstop : (Slot.ofAddr bounds.stop).number ≤ blockCount :=
    Nat.le_of_lt (Slot.ofAddr bounds.stop).number_lt
  have hpages : ∀ d, (first.directory.modifySpan true (Entry.hold bounds)
      ((Slot.ofAddr bounds.start).number + 1) (Slot.ofAddr bounds.stop).number).2.isOwned d =
        true ↔ first.directory.isOwned d = true ∨
          d ∈ {d | ∃ s : Slot, s.dir = d ∧ bounds.Encloses s} := by
    intro d
    rw [first.directory.isOwned_modifySpan true _ hstop d, eq_self_iff_true, true_and]
    rfl
  obtain ⟨hlinked, hblock, hfull⟩ := h.linked.hold hbounds
    (first.directory.entry_modifySpan_hold bounds hstop
      : ∀ s, _ = if bounds.Encloses s then _ else _)
  rw [attachRest_eq]
  rcases hlinked.attach_cases (Slot.ofAddr bounds.stop) hbounds with
    ⟨after, hattach, hlast, hrest⟩ | ⟨herror, hlimit⟩
  · refine .inl ⟨after, hattach, hlast.linked, ?_, fun hlength hfree => ?_, ?_⟩
    · exact Block.along_of_steps hdiffer h.block_eq hblock hlast.block_eq
    · refine hlast.lossFree (hfull (fun s hs => ?_) (h.lossFree hfree))
      rw [h.block_eq, Function.update_of_ne (Bounds.Encloses.ne_first hs)]
      exact hlength s hs
    · rw [Bounds.dirs_eq]
      exact (hcharges.trans (Charges.of_directory _ hpages)).trans hrest
  · exact .inr ⟨herror, hlimit.trans hcharges.used_le⟩

/-- Outside address 0 and within the address space a registration succeeds, unless
every identifier is in use. -/
theorem Linked.register_cases (h : t.Linked) {start : Addr} {size : UInt32} (hstart : start ≠ 0)
    (hfits : start.toNat + size.toNat < addressCount) :
    (∃ after, t.register start size = (.ok (), after) ∧ t.Registers after ⟨start, size⟩) ∨
    (t.register start size).1 = .error .metadataExhausted ∧
      idLimit ≤ t.nodes.usedCount + 1 := by
  let bounds : Bounds := ⟨start, size⟩
  have hbounds : bounds.isVacant = false := Bounds.isVacant_of_start_ne hstart
  rw [Table.register, if_neg hstart, if_neg (by omega)]
  dsimp only
  rcases h.attach_cases (Slot.ofAddr start) hbounds with
    ⟨first, hattach, hbecomes, hcharges⟩ | ⟨herror, hlimit⟩
  · rw [hattach]
    dsimp only
    by_cases hsame : Slot.ofAddr bounds.start = Slot.ofAddr bounds.stop
    · rw [if_pos hsame]
      exact .inl ⟨first, rfl, hbecomes.registers_single hcharges hsame⟩
    · rw [if_neg hsame]
      rcases hbecomes.attachRest_cases hcharges hbounds hsame with
        ⟨after, hrest, hregisters⟩ | ⟨herror, hlimit⟩
      · rw [hrest]
        exact .inl ⟨after, rfl, hregisters⟩
      · refine .inr ⟨?_, hlimit⟩
        split
        · rename_i heq
          rw [heq] at herror
          cases herror
        · rename_i heq
          rw [heq] at herror
          exact herror
  · refine .inr ⟨?_, Nat.le_succ_of_le hlimit⟩
    split
    · rename_i heq
      rw [heq] at herror
      exact herror
    · rename_i heq
      rw [heq] at herror
      cases herror

/-- While there is room for two nodes, a registration succeeds. -/
theorem Linked.register (h : t.Linked) {start : Addr} {size : UInt32} (hstart : start ≠ 0)
    (hfits : start.toNat + size.toNat < addressCount)
    (hroom : t.nodes.usedCount + 1 < idLimit) :
    ∃ after, t.register start size = (.ok (), after) ∧ t.Registers after ⟨start, size⟩ := by
  rcases h.register_cases hstart hfits with hok | ⟨-, hfull⟩
  · exact hok
  · omega

/-! ## Removing -/

/-- Taking a region out of its blocks: first the block at its start, then those between, then
the last. -/
theorem detachRange_eq (t : Table) (first last : Slot) (start : Addr) :
    t.detachRange first last start =
      if first = last then t.detach first start
      else (Table.mk ((t.detach first start).directory.modifySpan false Entry.vacate
        (first.number + 1) last.number).2 (t.detach first start).nodes).detach last start := rfl

/-- A removal does to the lists what `Block.leave` says. -/
theorem Linked.detachRange (h : t.Linked) (bounds : Bounds) :
    let after := t.detachRange (Slot.ofAddr bounds.start) (Slot.ofAddr bounds.stop) bounds.start
    after.Linked ∧ after.block = Block.leave bounds t.block ∧
      ((∀ s, bounds.Encloses s → (t.block s).regions.length ≤ 1) →
        t.LossFree → after.LossFree) := by
  intro after
  have hfirst := h.detach (Slot.ofAddr bounds.start) bounds.start
  by_cases hsame : Slot.ofAddr bounds.start = Slot.ofAddr bounds.stop
  · have hafter : after = t.detach (Slot.ofAddr bounds.start) bounds.start := if_pos hsame
    rw [hafter]
    refine ⟨hfirst.linked, ?_, fun _ => hfirst.lossFree⟩
    rw [hfirst.block_eq]
    exact (Block.along_of_single _ _ _ hsame).symm
  · obtain ⟨hlinked₂, hblock₂, hfull₂⟩ := hfirst.linked.vacate
      (Directory.entry_modifySpan_vacate _ (Nat.le_of_lt (Slot.ofAddr bounds.stop).number_lt)
        : ∀ s, _ = if bounds.Encloses s then _ else _)
    have hlast := hlinked₂.detach (Slot.ofAddr bounds.stop) bounds.start
    have hafter : after = _ := (detachRange_eq t _ _ _).trans (if_neg hsame)
    rw [hafter]
    refine ⟨hlast.linked, ?_, fun hlength hfull => ?_⟩
    · exact Block.along_of_steps hsame hfirst.block_eq hblock₂ hlast.block_eq
    · refine hlast.lossFree (hfull₂ (fun s hs => ?_) (hfirst.lossFree hfull))
      rw [hfirst.block_eq, Function.update_of_ne (Bounds.Encloses.ne_first hs)]
      exact hlength s hs

/-- A removal takes nothing. -/
theorem frugal_detachRange (t : Table) (first last : Slot) (start : Addr) :
    t.Frugal (t.detachRange first last start) := by
  rw [detachRange_eq]
  split
  · exact t.frugal_detach first start
  · have hspan : (t.detach first start).Frugal ⟨((t.detach first start).directory.modifySpan false
        Entry.vacate (first.number + 1) last.number).2, (t.detach first start).nodes⟩ :=
      .of_size (Directory.isOwned_modifySpan_false _ _ (Nat.le_of_lt last.number_lt)) rfl
        (Nat.le_refl _)
    exact ((t.frugal_detach first start).trans hspan).trans (frugal_detach _ last start)

/-- A removal looks the start up, and goes on only if a region is found that starts there. -/
theorem unregister_eq (t : Table) (start : Addr) :
    t.unregister start =
      if (t.lookup start).1.isVacant || (t.lookup start).1.start != start then
        (.error (.invalidRemoval start), (t.lookup start).2)
      else
        (.ok (), (t.lookup start).2.detachRange (Slot.ofAddr start)
          (Slot.ofAddr (t.lookup start).1.stop) start) := rfl

/-- A removal takes neither pages nor nodes. -/
theorem frugal_unregister (t : Table) (start : Addr) : t.Frugal (t.unregister start).2 := by
  have hlookup : t.Frugal (t.lookup start).2 := t.frugal_find _ start
  rw [unregister_eq]
  split
  · exact hlookup
  · exact hlookup.trans (frugal_detachRange _ _ _ start)

/-! ## Whether or not it succeeds -/

/-- Entering a region at a block leaves good order whether or not an identifier is found. -/
theorem Linked.linked_attach (h : t.Linked) (s : Slot) {bounds : Bounds}
    (hbounds : bounds.isVacant = false) : (t.attach s bounds).2.Linked := by
  rcases hattach : t.attach s bounds with ⟨_ | _, after⟩
  · rw [h.attach_of_error hattach]
    exact (h.own s.dir).1
  · rcases h.attach_cases s hbounds with ⟨entered, hentered, hbecomes, -⟩ | ⟨herror, -⟩
    · obtain rfl : after = entered := congrArg Prod.snd (hattach.symm.trans hentered)
      exact hbecomes.linked
    · rw [hattach] at herror
      cases herror

/-- So does entering it at the blocks behind its first one. -/
theorem Linked.linked_attachRest (h : t.Linked) {bounds : Bounds}
    (hbounds : bounds.isVacant = false) :
    (t.attachRest (Slot.ofAddr bounds.start) (Slot.ofAddr bounds.stop) bounds).2.Linked := by
  have hstop : (Slot.ofAddr bounds.stop).number ≤ blockCount :=
    Nat.le_of_lt (Slot.ofAddr bounds.stop).number_lt
  obtain ⟨hheld, -⟩ := h.hold hbounds
    (t.directory.entry_modifySpan_hold bounds hstop
      : ∀ s, _ = if bounds.Encloses s then _ else _)
  rw [attachRest_eq]
  exact hheld.linked_attach _ hbounds

/-- A registration that finds no identifier takes out what it has entered, so the lists
are in order also then. -/
theorem Linked.linked_register (h : t.Linked) (start : Addr) (size : UInt32) :
    (t.register start size).2.Linked := by
  unfold Table.register
  split
  · exact h
  · rename_i hstart
    have hbounds : Bounds.isVacant ⟨start, size⟩ = false := Bounds.isVacant_of_start_ne hstart
    split
    · exact h
    · have hfirst := h.linked_attach (Slot.ofAddr start) hbounds
      dsimp only
      rcases hattach : t.attach (Slot.ofAddr start) ⟨start, size⟩ with ⟨_ | _, first⟩
      · rwa [hattach] at hfirst
      · rw [hattach] at hfirst
        dsimp only
        split
        · exact hfirst
        · have hrest := hfirst.linked_attachRest hbounds
          rcases hattachRest : first.attachRest (Slot.ofAddr start)
            (Slot.ofAddr (Bounds.stop ⟨start, size⟩)) ⟨start, size⟩ with ⟨_ | _, rest⟩
          · rw [hattachRest] at hrest
            exact (hrest.detachRange ⟨start, size⟩).1
          · rwa [hattachRest] at hrest

end Table

end RegionGuard
