import RegionGuard.Proofs.Table.Registration
import RegionGuard.Proofs.Table.Reserved
import RegionGuard.Table.Listing
import Mathlib.Data.List.FinRange

/-!
# The table as lists by block

Without entries, nodes and pages, a table is a list of regions and a mark for each
block.  The calls on such `Blocks` are plain list operations: a registration puts
the region in front of two lists and makes it the only one of the lists between, a
look-up exchanges what it finds with the region in front, and a removal takes the
first region with its start out of two lists and empties those between.

No caller promises anything here, so regions may overlap, be registered twice and
be removed while others hide them.  As long as identifiers do not run out, a table
replies to any sequence of calls as its blocks do, and they do not run out before more
than half as many calls have been made as there are identifiers.
-/

namespace RegionGuard

/-- What each block holds. -/
abbrev Blocks := Slot → Block

namespace Blocks

/-- No block has a region, and those that one of the zones fills are forbidden. -/
def reserving (zones : List Zone) : Blocks :=
  fun s => ⟨[], decide (Reserved zones s)⟩

/-- What a look-up in one block finds, and the blocks in which the region found has
changed places with the one in front. -/
def find (blocks : Blocks) (s : Slot) (addr : Addr) : Bounds × Blocks :=
  (((blocks s).find addr).1, Function.update blocks s ((blocks s).find addr).2)

/-- Registers a region, unless it starts at address 0 or ends past the address space. -/
def register (blocks : Blocks) (start : Addr) (size : UInt32) : Except Violation Unit × Blocks :=
  if start = 0 then (.error .nullRegion, blocks)
  else if addressCount ≤ start.toNat + size.toNat then
    (.error (.regionOverflow start size), blocks)
  else (.ok (), Block.enter ⟨start, size⟩ blocks)

/-- Removes the region that a look-up of `start` finds, unless it starts elsewhere. -/
def unregister (blocks : Blocks) (start : Addr) : Except Violation Unit × Blocks :=
  match blocks.find (Slot.ofAddr start) start with
  | (found, blocks) =>
    if found.isVacant || found.start != start then (.error (.invalidRemoval start), blocks)
    else (.ok (), Block.leave found blocks)

/-- The blocks with a region, by ascending address. -/
def occupied (blocks : Blocks) : List Slot :=
  ((List.range blockCount).map Slot.ofBlock).filter fun s => !(blocks s).regions.isEmpty

/-- One line for each block with a region. -/
def listing (blocks : Blocks) : String :=
  String.join (blocks.occupied.map fun s =>
    Text.hexWord s.firstAddr ++ ":" ++
      String.join ((blocks s).regions.map Table.listingRegion) ++ "\n")

end Blocks

/-- A call and its arguments. -/
inductive Call
  | register (start : Addr) (size : UInt32)
  | unregister (start : Addr)
  | lookup (addr : Addr)
  | find (s : Slot) (addr : Addr)
  | regionsAt (addr : Addr)
  | listing

/-- What a call returns. -/
inductive Reply
  | outcome (result : Except Violation Unit)
  | bounds (found : Bounds)
  | regions (listed : List Bounds)
  | text (lines : String)

/-- No identifier was left. -/
abbrev Reply.exhausted : Reply := .outcome (.error .metadataExhausted)

/-- What a table replies to a call, and the table afterwards. -/
def Table.reply (t : Table) : Call → Reply × Table
  | .register start size => (t.register start size).map .outcome id
  | .unregister start => (t.unregister start).map .outcome id
  | .lookup addr => (t.lookup addr).map .bounds id
  | .find s addr => (t.find s addr).map .bounds id
  | .regionsAt addr => (.regions (t.regionsAt addr), t)
  | .listing => (.text t.listing, t)

/-- What the blocks reply to a call, and the blocks afterwards. -/
def Blocks.reply (blocks : Blocks) : Call → Reply × Blocks
  | .register start size => (blocks.register start size).map .outcome id
  | .unregister start => (blocks.unregister start).map .outcome id
  | .lookup addr => (blocks.find (Slot.ofAddr addr) addr).map .bounds id
  | .find s addr => (blocks.find s addr).map .bounds id
  | .regionsAt addr => (.regions (blocks (Slot.ofAddr addr)).regions, blocks)
  | .listing => (.text blocks.listing, blocks)

/-- The replies to a sequence of calls, and the state behind the last one. -/
def serve {State : Type} (reply : State → Call → Reply × State) (state : State) :
    List Call → List Reply × State
  | [] => ([], state)
  | call :: calls =>
    ((reply state call).1 :: (serve reply (reply state call).2 calls).1,
      (serve reply (reply state call).2 calls).2)

namespace Table

variable {t : Table}

/-- There is a fresh table for every list of zones, and its blocks are those that the
zones leave. -/
theorem exists_linked_reserving (zones : List Zone) :
    ∃ t, reserving zones = .ok t ∧ t.nodes = NodePool.empty ∧ t.Linked ∧
      t.block = Blocks.reserving zones := by
  obtain ⟨t, ht, hnodes, hentry⟩ := exists_reserving zones
  have hlinked : t.Linked := linked_of_empty hnodes fun s => by
    rw [hentry]
    split <;> exact ⟨rfl, rfl⟩
  refine ⟨t, ht, hnodes, hlinked, ?_⟩
  funext s
  rw [hlinked.block_of_vacant (by rw [hentry]; split <;> rfl), hentry, Blocks.reserving]
  by_cases hs : Reserved zones s <;> simp [hs]

/-! ## The listing -/

/-- The numbers below a product, counted in runs of one length. -/
theorem range_mul (runs length : Nat) :
    List.range (runs * length) = (List.range runs).flatMap fun r =>
      (List.range length).map fun i => r * length + i := by
  induction runs with
  | zero => simp
  | succ runs ih =>
      rw [Nat.succ_mul, List.range_add, List.range_succ, List.flatMap_append, ih]
      simp

/-- Going through the slots page by page is going through the blocks. -/
theorem flatMap_slots :
    ((List.finRange directorySlots).flatMap fun d => (List.finRange blocksPerPage).map (Slot.mk d)) =
      (List.range blockCount).map Slot.ofBlock := by
  have hcount : blockCount = directorySlots * blocksPerPage := by decide
  have hslot : ∀ d i, Slot.ofBlock (d.val * blocksPerPage + i.val) = Slot.mk d i :=
    fun d i => Slot.ofBlock_number ⟨d, i⟩
  rw [hcount, range_mul, List.map_flatMap, ← @List.map_coe_finRange_eq_range directorySlots,
    ← @List.map_coe_finRange_eq_range blocksPerPage, List.flatMap_map]
  simp only [List.map_map, Function.comp_def, hslot]

/-- A block lists nothing exactly if its entry holds no region. -/
theorem Linked.isEmpty_regions (h : t.Linked) (s : Slot) :
    (t.block s).regions.isEmpty = (t.entry s).bounds.isVacant := by
  cases hheld : (t.entry s).bounds.isVacant with
  | true =>
      rw [h.block_of_vacant hheld]
      rfl
  | false =>
      rw [block_of_held hheld]
      rfl

/-- The slots that are not searched have no block with a region. -/
theorem Linked.occupied_eq (h : t.Linked) : t.occupied = Blocks.occupied t.block := by
  rw [Table.occupied, Blocks.occupied, ← flatMap_slots, List.filter_flatMap]
  refine List.flatMap_congr fun d _ => ?_
  simp only [h.isEmpty_regions]
  by_cases howned : t.directory.isOwned d = true
  · rw [if_pos howned]
  · rw [if_neg howned, eq_comm, List.filter_eq_nil_iff]
    intro s hs
    obtain ⟨i, -, rfl⟩ := List.mem_map.mp hs
    have hvacant : (t.entry ⟨d, i⟩).bounds.isVacant = true :=
      (Directory.template_of_shared howned).2
    rw [hvacant]
    simp

/-- The listing is made from the lists of the blocks. -/
theorem Linked.listing_eq (h : t.Linked) : t.listing = Blocks.listing t.block := by
  rw [Table.listing, Blocks.listing, h.occupied_eq]
  rfl

/-! ## Single calls -/

/-- A removal replies as on the blocks. -/
theorem Linked.unregister (h : t.Linked) (start : Addr) :
    (t.unregister start).1 = (Blocks.unregister t.block start).1 ∧
      (t.unregister start).2.Linked ∧
      (t.unregister start).2.block = (Blocks.unregister t.block start).2 := by
  obtain ⟨hfound, hbecomes⟩ := h.find (Slot.ofAddr start) start
  rw [unregister_eq, Blocks.unregister, Blocks.find, Table.lookup, hfound]
  dsimp only
  split
  · exact ⟨rfl, hbecomes.linked, hbecomes.block_eq⟩
  · rename_i hstart
    -- the removal goes by the start asked for, which is the one of the region found
    have hsame : ((t.block (Slot.ofAddr start)).find start).1.start = start := by
      by_contra hne
      simp [hne] at hstart
    obtain ⟨hlinked, hblock, -⟩ :=
      hbecomes.linked.detachRange ((t.block (Slot.ofAddr start)).find start).1
    rw [hsame] at hlinked hblock
    rw [hbecomes.block_eq] at hblock
    exact ⟨rfl, hlinked, hblock⟩

/-- Unless it finds no identifier, a registration replies as on the blocks. -/
theorem Linked.register_eq (h : t.Linked) (start : Addr) (size : UInt32)
    (hok : (t.register start size).1 ≠ .error .metadataExhausted) :
    (t.register start size).1 = (Blocks.register t.block start size).1 ∧
      (t.register start size).2.Linked ∧
      (t.register start size).2.block = (Blocks.register t.block start size).2 := by
  by_cases hstart : start = 0
  · rw [Table.register, if_pos hstart, Blocks.register, if_pos hstart]
    exact ⟨rfl, h, rfl⟩
  · by_cases hover : addressCount ≤ start.toNat + size.toNat
    · rw [Table.register, if_neg hstart, if_pos hover, Blocks.register, if_neg hstart,
        if_pos hover]
      exact ⟨rfl, h, rfl⟩
    · rcases h.register_cases hstart (Nat.lt_of_not_le hover) with
        ⟨after, hafter, hregisters⟩ | ⟨herror, -⟩
      · rw [hafter, Blocks.register, if_neg hstart, if_neg hover]
        exact ⟨rfl, hregisters.linked, hregisters.block_eq⟩
      · exact absurd herror hok

/-- Unless it finds no identifier, a call replies as on the blocks. -/
theorem Linked.reply (h : t.Linked) (call : Call) (hok : (t.reply call).1 ≠ .exhausted) :
    (t.reply call).1 = (Blocks.reply t.block call).1 ∧ (t.reply call).2.Linked ∧
      (t.reply call).2.block = (Blocks.reply t.block call).2 := by
  cases call with
  | register start size =>
      have hok' : (t.register start size).1 ≠ .error .metadataExhausted := by
        intro herror
        exact hok (congrArg Reply.outcome herror)
      obtain ⟨hresult, hlinked, hblock⟩ := h.register_eq start size hok'
      exact ⟨congrArg Reply.outcome hresult, hlinked, hblock⟩
  | unregister start =>
      obtain ⟨hresult, hlinked, hblock⟩ := h.unregister start
      exact ⟨congrArg Reply.outcome hresult, hlinked, hblock⟩
  | lookup addr =>
      obtain ⟨hfound, hbecomes⟩ := h.find (Slot.ofAddr addr) addr
      exact ⟨congrArg Reply.bounds hfound, hbecomes.linked, hbecomes.block_eq⟩
  | find s addr =>
      obtain ⟨hfound, hbecomes⟩ := h.find s addr
      exact ⟨congrArg Reply.bounds hfound, hbecomes.linked, hbecomes.block_eq⟩
  | regionsAt addr => exact ⟨congrArg Reply.regions (regions_block t addr).symm, h, rfl⟩
  | listing => exact ⟨congrArg Reply.text h.listing_eq, h, rfl⟩

/-- A call puts at most two more nodes in use, and finds identifiers while two are left. -/
theorem Linked.used_reply (h : t.Linked) (hroom : t.nodes.usedCount + 2 ≤ idLimit) (call : Call) :
    (t.reply call).1 ≠ .exhausted ∧
      (t.reply call).2.nodes.usedCount ≤ t.nodes.usedCount + 2 := by
  cases call with
  | register start size =>
      show Reply.outcome (t.register start size).1 ≠ _ ∧
        (t.register start size).2.nodes.usedCount ≤ _
      by_cases hstart : start = 0
      · rw [Table.register, if_pos hstart]
        exact ⟨by simp, Nat.le_add_right _ _⟩
      · by_cases hover : addressCount ≤ start.toNat + size.toNat
        · rw [Table.register, if_neg hstart, if_pos hover]
          exact ⟨by simp, Nat.le_add_right _ _⟩
        · rcases h.register_cases hstart (Nat.lt_of_not_le hover) with
            ⟨after, hafter, hregisters⟩ | ⟨-, hlimit⟩
          · rw [hafter]
            exact ⟨by simp, hregisters.charges.used_le⟩
          · omega
  | unregister start =>
      refine ⟨?_, (t.frugal_unregister start).used_le.trans (Nat.le_add_right _ _)⟩
      show Reply.outcome (t.unregister start).1 ≠ _
      rw [unregister_eq]
      split <;> simp
  | lookup addr =>
      exact ⟨by simp [Table.reply], (t.frugal_find _ addr).used_le.trans (Nat.le_add_right _ _)⟩
  | find s addr =>
      exact ⟨by simp [Table.reply], (t.frugal_find s addr).used_le.trans (Nat.le_add_right _ _)⟩
  | regionsAt addr => exact ⟨by simp [Table.reply], Nat.le_add_right _ _⟩
  | listing => exact ⟨by simp [Table.reply], Nat.le_add_right _ _⟩

/-! ## Sequences of calls -/

/-- While identifiers are found, a table in good order replies as its blocks do. -/
theorem Linked.serve_eq (h : t.Linked) (calls : List Call)
    (hok : Reply.exhausted ∉ (serve Table.reply t calls).1) :
    (serve Table.reply t calls).1 = (serve Blocks.reply t.block calls).1 ∧
      (serve Table.reply t calls).2.block = (serve Blocks.reply t.block calls).2 := by
  induction calls generalizing t with
  | nil => exact ⟨rfl, rfl⟩
  | cons call calls ih =>
      obtain ⟨hfirst, hrest⟩ : (t.reply call).1 ≠ .exhausted ∧
          Reply.exhausted ∉ (serve Table.reply (t.reply call).2 calls).1 := by
        rw [serve, List.mem_cons, not_or] at hok
        exact ⟨Ne.symm hok.1, hok.2⟩
      obtain ⟨hreply, hlinked, hblock⟩ := h.reply call hfirst
      obtain ⟨hreplies, hend⟩ := ih hlinked hrest
      rw [hblock] at hreplies hend
      exact ⟨congr (congrArg List.cons hreply) hreplies, hend⟩

/-- A call takes at most two identifiers, so a sequence of calls with twice as many to spare
always finds one. -/
theorem Linked.notMem_serve (h : t.Linked) (calls : List Call)
    (hroom : t.nodes.usedCount + 2 * calls.length ≤ idLimit) :
    Reply.exhausted ∉ (serve Table.reply t calls).1 := by
  induction calls generalizing t with
  | nil => simp [serve]
  | cons call calls ih =>
      rw [List.length_cons] at hroom
      obtain ⟨hok, hused⟩ := h.used_reply (by omega) call
      have hrest := ih (h.reply call hok).2.1 (by omega)
      rw [serve, List.mem_cons, not_or]
      exact ⟨Ne.symm hok, hrest⟩

/-- For every list of zones there is a fresh table that replies to any calls as the
blocks that the zones leave, and whose blocks afterwards are the same, as long as
identifiers do not run out.  They never do in a sequence of at most half as many calls as
there are identifiers. -/
theorem serve_of_reserving (zones : List Zone) :
    ∃ fresh, reserving zones = .ok fresh ∧ ∀ calls : List Call,
      (Reply.exhausted ∉ (serve Table.reply fresh calls).1 →
        (serve Table.reply fresh calls).1 = (serve Blocks.reply (.reserving zones) calls).1 ∧
          (serve Table.reply fresh calls).2.block =
            (serve Blocks.reply (.reserving zones) calls).2) ∧
        (2 * calls.length ≤ idLimit → Reply.exhausted ∉ (serve Table.reply fresh calls).1) := by
  obtain ⟨fresh, hfresh, hnodes, hlinked, hblock⟩ := exists_linked_reserving zones
  refine ⟨fresh, hfresh, fun calls => ⟨fun hok => ?_, fun hroom => ?_⟩⟩
  · rw [← hblock]
    exact hlinked.serve_eq calls hok
  · have hused : fresh.nodes.usedCount = 0 := by
      rw [hnodes]
      rfl
    exact hlinked.notMem_serve calls (by omega)

/-- Three regions that overlap.  The third one drops the second, and the removal of the
first one takes the third one out of a block between. -/
theorem serve_of_overlapping :
    ∃ fresh, reserving [] = .ok fresh ∧ (serve Table.reply fresh
      [.register 0x1000 0x300, .register 0x1100 0x80, .register 0x1040 0x220, .lookup 0x1020,
        .unregister 0x1100, .unregister 0x1000, .regionsAt 0x1200, .regionsAt 0x1000]).1 =
      [.outcome (.ok ()), .outcome (.ok ()), .outcome (.ok ()), .bounds ⟨0x1000, 0x300⟩,
        .outcome (.error (.invalidRemoval 0x1100)), .outcome (.ok ()), .regions [],
        .regions [⟨0x1040, 0x220⟩]] := by
  obtain ⟨fresh, hfresh, hreplies⟩ := serve_of_reserving []
  refine ⟨fresh, hfresh, ?_⟩
  obtain ⟨hsame, hfound⟩ := hreplies [.register 0x1000 0x300, .register 0x1100 0x80,
    .register 0x1040 0x220, .lookup 0x1020, .unregister 0x1100, .unregister 0x1000,
    .regionsAt 0x1200, .regionsAt 0x1000]
  rw [(hsame (hfound (by decide))).1]
  rfl

end Table

end RegionGuard
